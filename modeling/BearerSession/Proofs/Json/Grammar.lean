import BearerSession.Proofs.Json.Reread

/-!
# The grammar of JSON

What a text says is given by a grammar: which characters stand for a text between quotes, which for
a number, and how values, lists and maps are put together from them. Each rule relates what a text
begins with to the rest of it. The grammar knows no limits, and no order in which anything is read.
Whatever the reader reads, the grammar says too.
-/

namespace BearerSession.Json

open Number (digitsValue splitDigits)

/-- Blanks stand at the start of a text, up to a rest. -/
def Gap (s rest : List Char) : Prop := ∃ gap, (∀ c ∈ gap, isBlank c = true) ∧ s = gap ++ rest

/-- The escape of the second half of a pair stands at the start of a text. -/
def LowHalf (s : List Char) : Prop :=
  ∃ p q r t low rest, s = '\\' :: 'u' :: p :: q :: r :: t :: rest ∧
    hexUnit? p q r t = some low ∧ isLow low = true

/-- The characters of a text stand behind its opening quote, up to what follows the closing one. -/
inductive Quoted : (s t rest : List Char) → Prop where
  /-- The closing quote. -/
  | close {rest : List Char} : Quoted ('"' :: rest) [] rest
  /-- A character that stands for itself. -/
  | plain {c : Char} {s t rest : List Char} (quote : c ≠ '"') (backslash : c ≠ '\\')
      (control : 0x20 ≤ c.toNat) (more : Quoted s t rest) : Quoted (c :: s) (c :: t) rest
  /-- An escape of one letter. -/
  | letter {e c : Char} {s t rest : List Char} (escape : escaped? e = some c)
      (more : Quoted s t rest) : Quoted ('\\' :: e :: s) (c :: t) rest
  /-- The escape of a unit that does not make a pair with the next one. -/
  | unit {p q r u : Char} {unit : Nat} {s t rest : List Char}
      (escape : hexUnit? p q r u = some unit) (single : isHigh unit = true → ¬ LowHalf s)
      (more : Quoted s t rest) :
      Quoted ('\\' :: 'u' :: p :: q :: r :: u :: s) (unitChar unit :: t) rest
  /-- The escapes of both halves of a pair. -/
  | pair {p q r u p' q' r' u' : Char} {high low : Nat} {s t rest : List Char}
      (first : hexUnit? p q r u = some high) (isHigh : isHigh high = true)
      (second : hexUnit? p' q' r' u' = some low) (isLow : isLow low = true)
      (more : Quoted s t rest) :
      Quoted ('\\' :: 'u' :: p :: q :: r :: u :: '\\' :: 'u' :: p' :: q' :: r' :: u' :: s)
        (pairChar high low :: t) rest

/-- The sign of a number. -/
def minus (negative : Bool) : List Char := if negative then ['-'] else []

/-- A number with its sign. -/
def signed (negative : Bool) (n : Nat) : Int := if negative then -n else n

/-- The exponent of a number, if it has one, is a power of ten. -/
inductive Exponent : List Char → Int → Prop where
  /-- There is none. -/
  | absent : Exponent [] 0
  /-- A letter, a sign or none, and digits. -/
  | present {e : Char} {digits sign : List Char} (negative : Bool) (letter : e = 'e' ∨ e = 'E')
      (sign_eq : sign = minus negative ∨ sign = ['+'] ∧ negative = false)
      (isDigit : ∀ c ∈ digits, c.isDigit = true) (ne : digits ≠ []) :
      Exponent (e :: (sign ++ digits)) (signed negative (digitsValue digits))

/-- A text is a number. -/
inductive Numeral : List Char → Value → Prop where
  /-- A whole number. -/
  | whole {whole : List Char} (negative : Bool) (leads : Leads whole) :
      Numeral (minus negative ++ whole) (.int (signed negative (digitsValue whole)))
  /-- A number with a fraction or an exponent. -/
  | real {whole fraction exponent : List Char} {power : Int} (negative : Bool)
      (leads : Leads whole) (isDigit : ∀ c ∈ fraction, c.isDigit = true)
      (exp : Exponent exponent power) (ne : fraction ≠ [] ∨ exponent ≠ []) :
      Numeral (minus negative ++ (whole ++ (point fraction ++ exponent)))
        (.real (.ofDecimal negative (digitsValue (whole ++ fraction)) (power - fraction.length)))

/-- What may stand at the start of a text. -/
inductive Part where
  /-- A value. -/
  | value (v : Value)
  /-- The values of a list up to its closing bracket; at least one. -/
  | items (vs : List Value)
  /-- The entries of a map up to its closing bracket, in order; at least one. -/
  | entries (es : List (String × Value))

/-- A part stands at the start of a text, up to a rest. -/
inductive Stands : (s : List Char) → Part → (rest : List Char) → Prop where
  /-- No value. -/
  | null {rest : List Char} : Stands ("null".toList ++ rest) (.value .null) rest
  /-- A truth value. -/
  | yes {rest : List Char} : Stands ("true".toList ++ rest) (.value (.bool true)) rest
  /-- The other one. -/
  | no {rest : List Char} : Stands ("false".toList ++ rest) (.value (.bool false)) rest
  /-- The name of what is no number. -/
  | nan {rest : List Char} : Stands ("NaN".toList ++ rest) (.value (.real .nan)) rest
  /-- The name of an infinity. -/
  | infinite {rest : List Char} (negative : Bool) :
      Stands (minus negative ++ ("Infinity".toList ++ rest)) (.value (.real (.infinite negative)))
        rest
  /-- A number. -/
  | number {s rest : List Char} {v : Value} (numeral : Numeral s v) :
      Stands (s ++ rest) (.value v) rest
  /-- A text. -/
  | text {s t rest : List Char} (quoted : Quoted s t rest) :
      Stands ('"' :: s) (.value (.text (String.ofList t))) rest
  /-- A list without values. -/
  | noItems {s rest : List Char} (gap : Gap s (']' :: rest)) :
      Stands ('[' :: s) (.value (.list [])) rest
  /-- Any other list. -/
  | list {s s' rest : List Char} {vs : List Value} (gap : Gap s s')
      (items : Stands s' (.items vs) rest) : Stands ('[' :: s) (.value (.list vs)) rest
  /-- A map without entries. -/
  | noEntries {s rest : List Char} (gap : Gap s ('\x7d' :: rest)) :
      Stands ('\x7b' :: s) (.value (.map [])) rest
  /-- Any other map. Of entries with one key the last one counts. -/
  | map {s s' rest : List Char} {es : List (String × Value)} (gap : Gap s s')
      (entries : Stands s' (.entries es) rest) :
      Stands ('\x7b' :: s) (.value (.map (Value.entriesOf es))) rest
  /-- The last value of a list. -/
  | lastItem {s s' rest : List Char} {v : Value} (value : Stands s (.value v) s')
      (gap : Gap s' (']' :: rest)) : Stands s (.items [v]) rest
  /-- A value before others. -/
  | item {s s' t t' rest : List Char} {v : Value} {vs : List Value}
      (value : Stands s (.value v) s') (gap : Gap s' (',' :: t)) (gap' : Gap t t')
      (more : Stands t' (.items vs) rest) : Stands s (.items (v :: vs)) rest
  /-- The last entry of a map. -/
  | lastEntry {s k t u u' w rest : List Char} {v : Value} (key : Quoted s k t)
      (colon : Gap t (':' :: u)) (gap : Gap u u') (value : Stands u' (.value v) w)
      (close : Gap w ('\x7d' :: rest)) :
      Stands ('"' :: s) (.entries [(String.ofList k, v)]) rest
  /-- An entry before others. -/
  | entry {s k t u u' w x x' rest : List Char} {v : Value} {es : List (String × Value)}
      (key : Quoted s k t) (colon : Gap t (':' :: u)) (gap : Gap u u')
      (value : Stands u' (.value v) w) (comma : Gap w (',' :: x)) (gap' : Gap x x')
      (more : Stands x' (.entries es) rest) :
      Stands ('"' :: s) (.entries ((String.ofList k, v) :: es)) rest

/-- A whole text says a value. -/
def Says (s : String) (v : Value) : Prop :=
  ∃ t rest, Gap s.toList t ∧ Stands t (.value v) rest ∧ Gap rest []

section Leaves

variable {s t rest : List Char}

/-- Blanks that are skipped are a gap. -/
theorem gap_skipBlanks (s : List Char) : Gap s (skipBlanks s) :=
  ⟨s.takeWhile isBlank, fun _ => List.mem_takeWhile_imp, List.takeWhile_append_dropWhile.symm⟩

/-- What is left behind the blanks stands behind a gap. -/
theorem gap_of_skipBlanks (h : skipBlanks s = rest) : Gap s rest := h ▸ gap_skipBlanks s

/-- Some character stands behind an opening quote. -/
theorem Quoted.ne_nil (h : Quoted s t rest) : s ≠ [] := by
  cases h <;> exact List.cons_ne_nil _ _

/-- Behind the escape of a unit, the text goes on. -/
theorem Quoted.more_of_unicodeEscape {p q r u : Char}
    (h : Quoted ('\\' :: 'u' :: p :: q :: r :: u :: s) t rest) : s ≠ [] := by
  cases h with
  | plain _ backslash => exact absurd rfl backslash
  | letter escape => simp [escaped?] at escape
  | unit _ _ more => exact more.ne_nil
  | pair => exact List.cons_ne_nil _ _

/-- Where nothing is found to join with a high half, no low half stands behind it. -/
theorem not_lowHalf {unit : Nat} (h : lowerHalf? unit s = .ok none) (hhigh : isHigh unit = true)
    (hquoted : Quoted s t rest) : ¬ LowHalf s := by
  rintro ⟨p, q, r, u, low, last, rfl, hlow, hisLow⟩
  obtain ⟨c, more, rfl⟩ := List.exists_cons_of_ne_nil hquoted.more_of_unicodeEscape
  simp [lowerHalf?, hhigh, hlow, hisLow] at h

/-- What is found to join with a high half is a low half. -/
theorem exists_of_lowerHalf? {unit low : Nat} (h : lowerHalf? unit s = .ok (some low)) :
    isHigh unit = true ∧ ∃ p q r u last, s = '\\' :: 'u' :: p :: q :: r :: u :: last ∧
      hexUnit? p q r u = some low ∧ isLow low = true := by
  unfold lowerHalf? at h
  split at h
  · next p q r u last =>
    split at h
    · next hhigh =>
      rw [Bool.and_eq_true] at hhigh
      split at h
      · contradiction
      · next second hsecond =>
        obtain ⟨hlow, hsame⟩ := Option.ite_none_right_eq_some.mp (Except.ok.inj h)
        obtain rfl := Option.some.inj hsame
        exact ⟨hhigh.1, p, q, r, u, last, rfl, hsecond, hlow⟩
    · cases h
  · cases h

/-- A character is read before a text that is read. -/
theorem exists_of_consChar {c : Char} {r : Reading (List Char)}
    (h : consChar c r = .ok (t, rest)) : ∃ u, t = c :: u ∧ r = .ok (u, rest) := by
  obtain ⟨⟨u, rest'⟩, hr, heq⟩ := exists_of_map_eq_ok h
  cases heq
  exact ⟨u, rfl, hr⟩

/-- A text that is read is quoted. -/
theorem quoted_of_readText {opening : Nat} (h : readText opening s = .ok (t, rest)) :
    Quoted s t rest := by
  fun_induction readText opening s generalizing t rest
  case case2 =>
    cases h
    exact .close
  case case4 c s hquote hbackslash hcontrol ih =>
    obtain ⟨u, rfl, hs⟩ := exists_of_consChar h
    exact .plain hquote hbackslash (Nat.le_of_not_lt hcontrol) (ih hs)
  case case6 c _ hbackslash e s _ d hescape ih =>
    obtain rfl := not_not.mp hbackslash
    obtain ⟨u, rfl, hs⟩ := exists_of_consChar h
    exact .letter hescape (ih hs)
  case case11 c _ hbackslash e hu p q r x s unit hunit _ hhalf ih =>
    obtain rfl := not_not.mp hbackslash
    obtain rfl := not_not.mp hu
    obtain ⟨u, rfl, hs⟩ := exists_of_consChar h
    have hquoted := ih hs
    exact .unit hunit (fun hhigh => not_lowHalf hhalf hhigh hquoted) hquoted
  case case12 c _ hbackslash e hu p q r x unit hunit low _ _ _ _ _ _ s _ hhalf ih =>
    obtain rfl := not_not.mp hbackslash
    obtain rfl := not_not.mp hu
    obtain ⟨hhigh, p', q', r', x', last, heq, hlow, hisLow⟩ := exists_of_lowerHalf? hhalf
    cases heq
    obtain ⟨u, rfl, hs⟩ := exists_of_consChar h
    exact .pair hunit hhigh hlow hisLow (ih hs)
  all_goals cases h

/-- Digits that are split off are digits. -/
theorem isDigit_splitDigits (s : List Char) : ∀ c ∈ (splitDigits s).1, c.isDigit = true :=
  fun _ => List.mem_takeWhile_imp

/-- A fraction that is read is digits behind a point, or nothing at all. -/
theorem fraction_of_readFraction {fraction : List Char} (h : readFraction s = (fraction, rest)) :
    (∀ c ∈ fraction, c.isDigit = true) ∧ s = point fraction ++ rest := by
  unfold readFraction at h
  split at h
  · next digits =>
    split at h
    · cases h
      exact ⟨List.forall_mem_nil _, rfl⟩
    · next hne =>
      have hsplit := Number.splitDigits_append digits
      have hdigits := isDigit_splitDigits digits
      rw [h] at hne hsplit hdigits
      refine ⟨hdigits, ?_⟩
      rw [point, if_neg hne, List.cons_append, hsplit]
  · cases h
    exact ⟨List.forall_mem_nil _, rfl⟩

/-- What stands before the digits of an exponent: whether it is negative, and the rest. -/
def readSign : List Char → Bool × List Char
  | '-' :: rest => (true, rest)
  | '+' :: rest => (false, rest)
  | rest => (false, rest)

theorem readExponent?_cons (e : Char) (s : List Char) :
    readExponent? (e :: s) =
      if e == 'e' || e == 'E' then
        if (splitDigits (readSign s).2).1.isEmpty then none
        else some (signed (readSign s).1 (digitsValue (splitDigits (readSign s).2).1),
          (splitDigits (readSign s).2).2)
      else none := rfl

/-- A sign that is read is one, or none. -/
theorem exists_of_readSign (s : List Char) :
    ∃ sign, (sign = minus (readSign s).1 ∨ sign = ['+'] ∧ (readSign s).1 = false) ∧
      s = sign ++ (readSign s).2 := by
  unfold readSign
  split
  · exact ⟨['-'], .inl rfl, rfl⟩
  · exact ⟨['+'], .inr ⟨rfl, rfl⟩, rfl⟩
  · exact ⟨[], .inl rfl, rfl⟩

/-- An exponent that is read is one. -/
theorem exponent_of_readExponent? {power : Int} (h : readExponent? s = some (power, rest)) :
    ∃ exponent, Exponent exponent power ∧ exponent ≠ [] ∧ s = exponent ++ rest := by
  cases s with
  | nil => cases h
  | cons e s =>
    rw [readExponent?_cons] at h
    obtain ⟨hletter, hsome⟩ := Option.ite_none_right_eq_some.mp h
    obtain ⟨hne, hfound⟩ := Option.ite_none_left_eq_some.mp hsome
    rw [Option.some.injEq, Prod.mk.injEq] at hfound
    obtain ⟨rfl, rfl⟩ := hfound
    obtain ⟨sign, hminus, hs⟩ := exists_of_readSign s
    rw [Bool.or_eq_true, beq_iff_eq, beq_iff_eq] at hletter
    refine ⟨_, .present _ hletter hminus (isDigit_splitDigits _) ?_, List.cons_ne_nil _ _, ?_⟩
    · simpa using hne
    · rw [List.cons_append, List.append_assoc, Number.splitDigits_append, ← hs]

/-- A number that is read behind its sign and its first digits is one. -/
theorem numeral_of_readNumberTail {negative : Bool} {whole : List Char} {v : Value}
    (hwhole : Leads whole) (h : readNumberTail negative whole s = .ok (v, rest)) :
    ∃ tail, Numeral (minus negative ++ (whole ++ tail)) v ∧ s = tail ++ rest := by
  unfold readNumberTail at h
  cases hfraction : readFraction s with
  | mk fraction after =>
    obtain ⟨hdigits, rfl⟩ := fraction_of_readFraction hfraction
    rw [hfraction] at h
    dsimp only at h
    split at h
    · next hempty hnone =>
      split at h
      · contradiction
      · cases h
        obtain rfl := List.isEmpty_iff.mp hempty
        exact ⟨[], by rw [List.append_nil]; exact .whole negative hwhole, rfl⟩
    · next exponent hmarked =>
      cases hexponent : readExponent? after with
      | none =>
        rw [hexponent] at h
        cases h
        have hne : fraction ≠ [] := by
          rintro rfl
          exact hmarked rfl hexponent
        refine ⟨point fraction ++ [], ?_, by simp⟩
        exact .real negative hwhole hdigits .absent (.inl hne)
      | some found =>
        obtain ⟨power, rest'⟩ := found
        rw [hexponent] at h
        cases h
        obtain ⟨exponent, hexp, hne, rfl⟩ := exponent_of_readExponent? hexponent
        exact ⟨_, .real negative hwhole hdigits hexp (.inr hne), (List.append_assoc ..).symm⟩

/-- What is read of a number behind its sign, which stood where `left` characters were left. -/
def readUnsigned (negative : Bool) (left : Nat) : List Char → Reading Value
  | '0' :: rest => readNumberTail negative ['0'] rest
  | c :: rest =>
    if c.isDigit then
      readNumberTail negative (splitDigits (c :: rest)).1 (splitDigits (c :: rest)).2
    else .error (.at .value left)
  | [] => .error (.at .value left)

theorem readNumber_minus (s : List Char) :
    readNumber ('-' :: s) = readUnsigned true (s.length + 1) s := by
  unfold readNumber readUnsigned
  cases s with
  | nil => rfl
  | cons c s =>
    by_cases hzero : c = '0'
    · subst hzero
      rfl
    · simp

theorem readNumber_eq_readUnsigned (h : s.head? ≠ some '-') :
    readNumber s = readUnsigned false s.length s := by
  unfold readNumber readUnsigned
  cases s with
  | nil => rfl
  | cons c s =>
    have hc : c ≠ '-' := fun heq => h (congrArg some heq)
    by_cases hzero : c = '0'
    · subst hzero
      rfl
    · simp [hc]

/-- Digits that are split off do not begin with a zero where the text does not. -/
theorem leads_splitDigits {c : Char} (hdigit : c.isDigit = true) (hzero : c ≠ '0')
    (s : List Char) : Leads (splitDigits (c :: s)).1 :=
  ⟨isDigit_splitDigits _, .inr ⟨c, s.takeWhile Char.isDigit, by simp [splitDigits, hdigit], hzero⟩⟩

/-- A number that is read behind its sign is one. -/
theorem numeral_of_readUnsigned {negative : Bool} {left : Nat} {v : Value}
    (h : readUnsigned negative left s = .ok (v, rest)) :
    ∃ body, Numeral (minus negative ++ body) v ∧ s = body ++ rest := by
  unfold readUnsigned at h
  split at h
  · next s =>
    obtain ⟨tail, hnumeral, rfl⟩ := numeral_of_readNumberTail ⟨by simp, .inl rfl⟩ h
    exact ⟨'0' :: tail, hnumeral, rfl⟩
  · next c s hzero =>
    split at h
    · next hdigit =>
      have hleads := leads_splitDigits hdigit (fun heq => hzero (heq ▸ rfl)) s
      obtain ⟨tail, hnumeral, htail⟩ := numeral_of_readNumberTail hleads h
      refine ⟨_, hnumeral, ?_⟩
      rw [List.append_assoc, ← htail, Number.splitDigits_append]
    · contradiction
  · contradiction

/-- A number that is read is one. -/
theorem numeral_of_readNumber {v : Value} (h : readNumber s = .ok (v, rest)) :
    ∃ p, Numeral p v ∧ s = p ++ rest := by
  by_cases hminus : s.head? = some '-'
  · obtain ⟨s, rfl⟩ := List.head?_eq_some_iff.mp hminus
    obtain ⟨body, hnumeral, rfl⟩ := numeral_of_readUnsigned (readNumber_minus s ▸ h)
    exact ⟨_, hnumeral, rfl⟩
  · rw [readNumber_eq_readUnsigned hminus] at h
    obtain ⟨body, hnumeral, rfl⟩ := numeral_of_readUnsigned h
    exact ⟨_, hnumeral, rfl⟩

end Leaves

mutual

/-- A value that is read stands there. -/
theorem stands_of_readValue {fuel depth : Nat} {s rest : List Char} {v : Value}
    (h : readValue fuel depth s = .ok (v, rest)) : Stands s (.value v) rest := by
  match fuel with
  | 0 => simp [readValue] at h
  | fuel + 1 =>
    have hstep := valueStep fuel depth s
    generalize readValue (fuel + 1) depth s = found at h hstep
    cases hstep with
    | text =>
      obtain ⟨⟨t, rest'⟩, htext, heq⟩ := exists_of_map_eq_ok h
      cases heq
      exact .text (quoted_of_readText htext)
    | deepMap | deepList => contradiction
    | noEntries _ closed =>
      cases h
      exact .noEntries (gap_of_skipBlanks closed)
    | map =>
      obtain ⟨⟨es, rest'⟩, hentries, heq⟩ := exists_of_map_eq_ok h
      cases heq
      exact .map (gap_of_skipBlanks rfl) (stands_of_readEntries hentries)
    | noItems _ closed =>
      cases h
      exact .noItems (gap_of_skipBlanks closed)
    | list =>
      obtain ⟨⟨vs, rest'⟩, hitems, heq⟩ := exists_of_map_eq_ok h
      cases heq
      exact .list (gap_of_skipBlanks rfl) (stands_of_readItems hitems)
    | name named =>
      cases h
      cases named with
      | null => exact .null
      | yes => exact .yes
      | no => exact .no
      | nan => exact .nan
      | infinite => exact .infinite false
      | negativeInfinite => exact .infinite true
    | number =>
      obtain ⟨p, hnumeral, rfl⟩ := numeral_of_readNumber h
      exact .number hnumeral

/-- So do the entries of a map. -/
theorem stands_of_readEntries {fuel depth : Nat} {s rest : List Char}
    {es : List (String × Value)} (h : readEntries fuel depth s = .ok (es, rest)) :
    Stands s (.entries es) rest := by
  match fuel with
  | 0 => simp [readEntries] at h
  | fuel + 1 =>
    unfold readEntries at h
    split at h
    · obtain ⟨⟨k, t⟩, hkey, h⟩ := exists_of_bind_eq_ok h
      dsimp only at h
      split at h
      · next hcolon =>
        obtain ⟨⟨v, w⟩, hvalue, h⟩ := exists_of_bind_eq_ok h
        dsimp only at h
        have hfirst := stands_of_readValue hvalue
        have hquoted := quoted_of_readText hkey
        split at h
        · next hclose =>
          cases h
          exact .lastEntry hquoted (gap_of_skipBlanks hcolon) (gap_skipBlanks _) hfirst
            (gap_of_skipBlanks hclose)
        · next hcomma =>
          obtain ⟨⟨more, rest'⟩, hmore, heq⟩ := exists_of_map_eq_ok h
          cases heq
          exact .entry hquoted (gap_of_skipBlanks hcolon) (gap_skipBlanks _) hfirst
            (gap_of_skipBlanks hcomma) (gap_skipBlanks _) (stands_of_readEntries hmore)
        · contradiction
      · contradiction
    · contradiction

/-- So do the values of a list. -/
theorem stands_of_readItems {fuel depth : Nat} {s rest : List Char} {vs : List Value}
    (h : readItems fuel depth s = .ok (vs, rest)) : Stands s (.items vs) rest := by
  match fuel with
  | 0 => simp [readItems] at h
  | fuel + 1 =>
    unfold readItems at h
    obtain ⟨⟨v, t⟩, hvalue, h⟩ := exists_of_bind_eq_ok h
    dsimp only at h
    have hfirst := stands_of_readValue hvalue
    split at h
    · next hclose =>
      cases h
      exact .lastItem hfirst (gap_of_skipBlanks hclose)
    · next hcomma =>
      obtain ⟨⟨more, rest'⟩, hmore, heq⟩ := exists_of_map_eq_ok h
      cases heq
      exact .item hfirst (gap_of_skipBlanks hcomma) (gap_skipBlanks _) (stands_of_readItems hmore)
    · contradiction

end

/-- What a text is read as, it says. -/
theorem says_of_read {s : String} {v : Value} (h : read s = .ok v) : Says s v := by
  have hwhole := readWhole_of_read h
  unfold readWhole at hwhole
  split at hwhole
  · contradiction
  · obtain ⟨⟨w, rest⟩, hvalue, h⟩ := exists_of_bind_eq_ok hwhole
    dsimp only at h
    split at h
    · next hrest =>
      cases h
      exact ⟨_, rest, gap_skipBlanks _, stands_of_readValue hvalue, gap_of_skipBlanks hrest⟩
    · contradiction

end BearerSession.Json
