import BearerSession.Output.Display

/-!
# Plain displays

A display for which markup is read and its styles are left out. A tag begins with a small letter or
one of `#`, `/` and `@`, and ends at the next closing bracket; a backslash in front of it makes it
text. A closing tag closes the last open tag of its name, and one without a name the last open tag
of all. Where no such tag is open, the markup is wrong.
-/

namespace BearerSession

namespace Markup

/-- A part of markup. -/
inductive Part where
  /-- Text. -/
  | text (cs : List Char)
  /-- A tag, what stands between its brackets, and where it begins. -/
  | tag (cs : List Char) (position : Nat)

/-- Whether a tag can begin with a character. -/
def startsTag (c : Char) : Bool := c.isLower || c == '#' || c == '/' || c == '@'

/-- The text of what has been read so far, the last character first, in front of a tag: a backslash
stands for each two of those at its end. -/
def unescaped (before : List Char) : List Char :=
  let slashes := before.takeWhile (· = '\\')
  (before.drop slashes.length).reverse ++ List.replicate (slashes.length / 2) '\\'

/-- Whether the tag after what has been read so far is text. -/
def isEscaped (before : List Char) : Bool := (before.takeWhile (· = '\\')).length % 2 == 1

/-- The parts of markup: what has been read as text, the last character first, and as a tag that is
not closed yet, and how far all that goes. -/
def parts (before : List Char) (tag? : Option (List Char)) (position : Nat) :
    List Char → List Part
  | [] => [.text ((tag?.elim before fun tag => tag ++ '[' :: before).reverse)]
  | c :: rest =>
    match tag? with
    | none =>
      if c = '[' then parts before (some []) (position + 1) rest
      else parts (c :: before) none (position + 1) rest
    | some tag =>
      if c = '[' then parts (tag ++ '[' :: before) (some []) (position + 1) rest
      else if c = ']' ∧ tag ≠ [] then
        if isEscaped before then
          .text (unescaped before ++ '[' :: (tag.reverse ++ [']'])) ::
            parts [] none (position + 1) rest
        else
          .text (unescaped before) :: .tag tag.reverse (position - tag.length - 1) ::
            parts [] none (position + 1) rest
      else if tag = [] ∧ !startsTag c then
        parts (c :: '[' :: before) none (position + 1) rest
      else parts before (some (c :: tag)) (position + 1) rest

/-- The name of a tag: what stands before an equals sign. -/
def nameOf (tag : List Char) : String :=
  Text.trim (String.ofList ((tag.takeWhile (· ≠ '=')).map Char.toLower))

/-- The text of markup, with the tags that are open, the last one first. -/
def shown (opened : List String) : List Part → Except String String
  | [] => .ok ""
  | .text cs :: rest => (shown opened rest).map fun s => String.ofList cs ++ s
  | .tag ('/' :: name) position :: rest =>
    let tag := String.ofList ('/' :: name)
    if nameOf name = "" then
      match opened with
      | [] => .error s!"closing tag '[/]' at position {position} has nothing to close"
      | _ :: opened => shown opened rest
    else if nameOf name ∈ opened then shown (opened.erase (nameOf name)) rest
    else .error s!"closing tag '[{tag}]' at position {position} doesn't match any open tag"
  | .tag tag _ :: rest => shown (nameOf tag :: opened) rest

/-- A line of markup. -/
def line (s : String) : Except String String :=
  (shown [] (parts [] none 0 s.toList)).map fun text => text ++ "\n"

/-- Where no bracket opens, nothing is a tag. -/
theorem parts_append {cs : List Char} (h : '[' ∉ cs) (before : List Char) (position : Nat)
    (rest : List Char) :
    parts before none position (cs ++ rest) =
      parts (cs.reverse ++ before) none (position + cs.length) rest := by
  induction cs generalizing before position with
  | nil => rfl
  | cons c cs ih =>
    rw [List.mem_cons, not_or] at h
    rw [List.cons_append, parts]
    simp only [Ne.symm h.1, if_false]
    rw [ih h.2, List.reverse_cons, List.append_assoc, List.length_cons, Nat.add_assoc,
      Nat.add_comm 1]
    rfl

/-- Whether parts of markup can be shown. -/
def Fits (opened : List String) (l : List Part) : Prop := ∃ s, shown opened l = .ok s

/-- A text in front of them does not matter to that. -/
theorem Fits.text {opened : List String} {l : List Part} (h : Fits opened l) (cs : List Char) :
    Fits opened (.text cs :: l) := by
  obtain ⟨s, hs⟩ := h
  exact ⟨String.ofList cs ++ s, by rw [shown, hs]; rfl⟩

/-- A text without an opening bracket can be shown. -/
theorem fits_text {cs : List Char} (h : '[' ∉ cs) (opened : List String) (position : Nat) :
    Fits opened (parts [] none position cs) := by
  have hparts := parts_append h [] position []
  rw [List.append_nil] at hparts
  rw [hparts]
  exact .text ⟨"", rfl⟩ _

/-- So can one with a closing tag behind it. A backslash at its end makes the tag a text, and the
style stays open. -/
theorem fits_styled {cs : List Char} (h : '[' ∉ cs) {style : String}
    (hstyle : style = "green" ∨ style = "dim") (position : Nat) :
    Fits [style] (parts [] none position (cs ++ '[' :: '/' :: (style.toList ++ [']']))) := by
  rw [parts_append h]
  generalize cs.reverse ++ [] = before
  generalize position + cs.length = position
  have hnothing : Fits [] [.text []] := ⟨"", rfl⟩
  have hopen : Fits [style] [.text []] := ⟨"", rfl⟩
  have hclosed (position : Nat) : Fits [style] [.tag ('/' :: style.toList) position, .text []] := by
    obtain ⟨s, hs⟩ := hnothing
    rcases hstyle with rfl | rfl <;> exact ⟨s, hs⟩
  have hparts : parts before none position ('[' :: '/' :: (style.toList ++ [']'])) =
      if isEscaped before then
        [.text (unescaped before ++ '[' :: '/' :: (style.toList ++ [']'])), .text []]
      else
        [.text (unescaped before), .tag ('/' :: style.toList) position, .text []] := by
    rcases hstyle with rfl | rfl <;> simp [parts, startsTag]
  rw [hparts]
  cases isEscaped before with
  | true => exact hopen.text _
  | false => exact (hclosed position).text _

/-- The characters of a text between the tags of a style. -/
theorem toList_styled (style text : String) :
    (Tone.styled style text).toList =
      '[' :: (style.toList ++ ']' :: (text.toList ++ '[' :: '/' :: (style.toList ++ [']']))) := by
  simp [Tone.styled]

/-- In a line that is right itself, only a bracket in its text can be wrong. -/
theorem exists_line_markup (tone : Tone) {text : String} (h : '[' ∉ text.toList) :
    ∃ shown, line (tone.markup text) = .ok shown := by
  have hopen {style : String} {l : List Part} {position : Nat} (hl : Fits [style] l)
      (hname : nameOf style.toList = style) (hstyle : style.toList.head? ≠ some '/') :
      Fits [] (.tag style.toList position :: l) := by
    obtain ⟨s, hs⟩ := hl
    refine ⟨s, ?_⟩
    rw [shown, hname, hs]
    rintro name heq
    simp [heq] at hstyle
  have hfits : Fits [] (parts [] none 0 (tone.markup text).toList) := by
    cases tone with
    | note => simpa [Tone.markup, Tone.style?, Tone.label] using fits_text h [] 0
    | confirmation =>
      rw [show (Tone.confirmation.markup text).toList = _ from toList_styled "green" text]
      exact (hopen (fits_styled h (.inl rfl) 7) rfl (by decide)).text []
    | detail =>
      rw [show (Tone.detail.markup text).toList = _ from toList_styled "dim" text]
      exact (hopen (fits_styled h (.inr rfl) 5) rfl (by decide)).text []
    | warning =>
      rw [show (Tone.warning.markup text).toList = _ from String.toList_append.trans
        (congrArg (· ++ text.toList) (toList_styled "yellow" "Warning: "))]
      exact ((fits_text h [] 26).text "Warning: ".toList).text []
    | error =>
      rw [show (Tone.error.markup text).toList = _ from String.toList_append.trans
        (congrArg (· ++ text.toList) (toList_styled "bold red" "Error: "))]
      exact ((fits_text h [] 28).text "Error: ".toList).text []
  obtain ⟨s, hs⟩ := hfits
  exact ⟨s ++ "\n", by rw [line, hs]; rfl⟩

/-- The name of a level. -/
def levelName : LogLevel → String
  | .debug => "DEBUG"
  | .info => "INFO"
  | .warning => "WARNING"

end Markup

/-- A display that takes every text and leaves styles out. -/
def Display.plain (terminal : Bool) : Display where
  terminal := terminal
  refusal? _ := none
  table _ rows := .ok (String.join (rows.map fun (key, value) => key ++ "\t" ++ value ++ "\n"))
  console := Markup.line
  record r := Markup.levelName r.level ++ " " ++ r.text ++ "\n"
  traceback e := e.name ++ ": " ++ e.text ++ "\n"
  refusal?_ascii _ _ := rfl
  console_unmarked := Markup.exists_line_markup
  console_line text shown h := by
    unfold Markup.line at h
    cases hshown : Markup.shown [] (Markup.parts [] none 0 text.toList) with
    | error report => simp [hshown, Except.map] at h
    | ok s =>
      rw [hshown] at h
      exact ⟨s, (Except.ok.inj h).symm⟩
  traceback_line e := ⟨_, rfl⟩

end BearerSession
