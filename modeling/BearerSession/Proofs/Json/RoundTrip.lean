import Mathlib.Data.List.TakeWhile
import BearerSession.Proofs.Json.Number
import BearerSession.Proofs.Json.Text
import BearerSession.Proofs.Value.Entries

/-!
# Reading what was written

A value made of null, truth values, numbers, texts, lists and maps with distinct keys is read back
from its JSON text in any layout, as long as its whole numbers are not too long and it is not nested
too deeply. The reader is given the rest of the input, so that the induction goes through parts of
lists and maps; a number needs to know that no digit, point or exponent follows it.
-/

namespace BearerSession

namespace Value

mutual

/-- Whether a value has a JSON text that reads as this value, where `depth` more lists and maps may
stand inside one another. -/
def ReadsBack (depth : Nat) : Value → Prop
  | .null | .bool _ | .text _ => True
  | .int n => n.natAbs < 10 ^ Json.digitLimit
  | .real x => x.Canonical
  | .list items => 0 < depth ∧ ItemsReadBack (depth - 1) items
  | .map entries => 0 < depth ∧ Keyed entries ∧ EntriesReadBack (depth - 1) entries
  | .bytes _ | .member .. | .record .. => False

/-- Whether all values of a list do. -/
def ItemsReadBack (depth : Nat) : List Value → Prop
  | [] => True
  | v :: rest => v.ReadsBack depth ∧ ItemsReadBack depth rest

/-- Whether all values of a map do. -/
def EntriesReadBack (depth : Nat) : List (String × Value) → Prop
  | [] => True
  | (_, v) :: rest => v.ReadsBack depth ∧ EntriesReadBack depth rest

end

end Value

namespace Json

variable {layout : Layout} {k : Nat} {rest : List Char}

/-- Blanks before a character that is none are dropped. -/
theorem skipBlanks_append {blanks : List Char} (hblanks : ∀ c ∈ blanks, isBlank c = true)
    {c : Char} (hc : isBlank c = false) (rest : List Char) :
    skipBlanks (blanks ++ c :: rest) = c :: rest := by
  rw [skipBlanks, List.dropWhile_append_of_pos hblanks, List.dropWhile_cons_of_neg (by simp [hc])]

/-- A break between the parts of a list or map is blank. -/
theorem isBlank_break {c : Char} (h : c ∈ layout.break k) : isBlank c = true := by
  unfold Layout.break at h
  split at h
  · contradiction
  · rcases List.mem_cons.mp h with rfl | h
    · rfl
    · rw [List.eq_of_mem_replicate h]
      rfl

/-- What separates two parts is a comma and blanks. -/
theorem exists_comma_eq (layout : Layout) (k : Nat) :
    ∃ gap, layout.comma k = ',' :: gap ∧ ∀ c ∈ gap, isBlank c = true := by
  unfold Layout.comma
  split
  · exact ⟨[' '], rfl, List.forall_mem_singleton.mpr rfl⟩
  · exact ⟨_, rfl, fun _ => isBlank_break⟩

/-- After a comma the values of a list go on as after any other blanks. -/
theorem exists_writeItems_comma (layout : Layout) (k : Nat) (v : Value) (items : List Value)
    (rest : List Char) :
    ∃ gap, (∀ c ∈ gap, isBlank c = true) ∧
      writeItems layout k (layout.comma k) (v :: items) rest =
        ',' :: writeItems layout k gap (v :: items) rest := by
  obtain ⟨gap, hcomma, hgap⟩ := exists_comma_eq layout k
  refine ⟨gap, hgap, ?_⟩
  simp only [writeItems, hcomma, List.cons_append]

/-- So do the entries of a map. -/
theorem exists_writeEntries_comma (layout : Layout) (k : Nat) (e : String × Value)
    (entries : List (String × Value)) (rest : List Char) :
    ∃ gap, (∀ c ∈ gap, isBlank c = true) ∧
      writeEntries layout k (layout.comma k) (e :: entries) rest =
        ',' :: writeEntries layout k gap (e :: entries) rest := by
  obtain ⟨gap, hcomma, hgap⟩ := exists_comma_eq layout k
  refine ⟨gap, hgap, ?_⟩
  simp only [writeEntries, hcomma, List.cons_append]

/-- Whether a value may begin with a character: it is no blank, closes no list, and is ASCII. -/
def Opens (c : Char) : Prop := isBlank c = false ∧ c ≠ ']' ∧ c.toNat < 0x80

instance (c : Char) : Decidable (Opens c) :=
  inferInstanceAs (Decidable (isBlank c = false ∧ c ≠ ']' ∧ c.toNat < 0x80))

/-- Digits open a value. -/
theorem opens_of_isDigit {c : Char} (h : c.isDigit = true) : Opens c := by
  have hrange : 48 ≤ c.toNat ∧ c.toNat ≤ 57 := by
    simpa [Char.isDigit, UInt32.le_iff_toNat_le] using h
  have hne {d : Char} (hd : d.toNat < 48 ∨ 57 < d.toNat) : c ≠ d := by
    rintro rfl
    omega
  refine ⟨?_, hne (by decide), by omega⟩
  simp [isBlank, hne (d := ' ') (by decide), hne (d := '\t') (by decide),
    hne (d := '\n') (by decide), hne (d := '\r') (by decide)]

/-- A whole number is written by its sign and its digits. -/
theorem write_int (n : Int) :
    write layout k (.int n) rest =
      (if n < 0 then ['-'] else []) ++ (Nat.toDigits 10 n.natAbs ++ rest) := by
  rw [write]
  cases n with
  | ofNat m => simp [Int.repr]
  | negSucc m => simp [Int.repr]

/-- What begins like a number is read as one. -/
theorem readValue_eq_readNumber {fuel depth : Nat} {c : Char} {t : List Char}
    (hc : c.isDigit = true ∨ c = '-' ∧ ∀ d ∈ t.head?, d.isDigit = true) :
    readValue (fuel + 1) depth (c :: t) = readNumber (c :: t) := by
  rw [readValue.eq_def]
  dsimp only
  split
  case h_10 => rfl
  case h_9 heq =>
    obtain ⟨rfl, rfl⟩ := List.cons.inj heq
    exact absurd hc (by simp)
  all_goals
    next heq =>
      obtain ⟨rfl, -⟩ := List.cons.inj heq
      exact absurd hc (by simp)

section Number

variable {fuel depth : Nat} {body : List Char} {x : Binary64}

/-- A sign, or none, before a digit opens a value. -/
theorem exists_opens_sign (p : Prop) [Decidable p]
    (hbody : ∃ c t, body = c :: t ∧ c.isDigit = true) :
    ∃ c t, Opens c ∧ (if p then ['-'] else []) ++ body = c :: t := by
  obtain ⟨c, t, rfl, hc⟩ := hbody
  split
  · exact ⟨'-', _, by decide, rfl⟩
  · exact ⟨c, t, opens_of_isDigit hc, rfl⟩

/-- What follows it is read as a number. -/
theorem readValue_sign (p : Prop) [Decidable p]
    (hbody : ∃ c t, body = c :: t ∧ c.isDigit = true) :
    readValue (fuel + 1) depth ((if p then ['-'] else []) ++ body) =
      readNumber ((if p then ['-'] else []) ++ body) := by
  obtain ⟨c, t, rfl, hc⟩ := hbody
  split
  · refine readValue_eq_readNumber (.inr ⟨rfl, ?_⟩)
    rintro _ ⟨⟩
    exact hc
  · exact readValue_eq_readNumber (.inl hc)

/-- The digits of a number begin with one, whatever follows them. -/
theorem exists_toDigits_append (n : Nat) (rest : List Char) :
    ∃ c t, Nat.toDigits 10 n ++ rest = c :: t ∧ c.isDigit = true := by
  obtain ⟨c, t, hdigits, hc⟩ := (leads_toDigits n).exists_eq_cons
  exact ⟨c, t ++ rest, by rw [hdigits, List.cons_append], hc⟩

/-- What is written of a double begins with a character that opens a value. -/
theorem exists_writeReal_eq_cons (hx : x.Canonical) : ∃ c t, Opens c ∧ writeReal x = c :: t := by
  match x with
  | .nan => exact ⟨'N', _, by decide, rfl⟩
  | .infinite false => exact ⟨'I', _, by decide, rfl⟩
  | .infinite true => exact ⟨'-', _, by decide, rfl⟩
  | .finite negative mantissa exponent =>
    obtain ⟨body, digits, power, htext, hread, -⟩ := exists_toList_text negative hx
    rw [writeReal, htext]
    · exact exists_opens_sign _ hread.opens
    all_goals nofun

/-- A written double reads as itself. -/
theorem readValue_writeReal (hx : x.Canonical) (hrest : Ends rest) :
    readValue (fuel + 1) depth (writeReal x ++ rest) = .ok (.real x, rest) := by
  match x with
  | .nan | .infinite false | .infinite true => rfl
  | .finite negative mantissa exponent =>
    obtain ⟨body, digits, power, htext, hread, hvalue⟩ := exists_toList_text negative hx
    obtain ⟨c, t, hbody, hc⟩ := hread.opens
    rw [writeReal, htext, List.append_assoc,
      readValue_sign _ ⟨c, t ++ rest, by rw [hbody]; rfl, hc⟩, hread.reads negative hrest, hvalue]
    all_goals nofun

end Number

/-- What is written of a value begins with a character that opens one. -/
theorem exists_write_eq_cons (layout : Layout) (k : Nat) (rest : List Char) {depth : Nat}
    {v : Value} (hv : v.ReadsBack depth) :
    ∃ c t, Opens c ∧ rest.length ≤ t.length ∧ write layout k v rest = c :: t := by
  have hopens : ∃ c t, Opens c ∧ write layout k v [] = c :: t := by
    cases v with
    | null => exact ⟨'n', _, by decide, rfl⟩
    | bool b =>
      cases b with
      | false => exact ⟨'f', _, by decide, rfl⟩
      | true => exact ⟨'t', _, by decide, rfl⟩
    | text s => exact ⟨'"', _, by decide, rfl⟩
    | int n =>
      rw [write_int]
      exact exists_opens_sign _ (exists_toDigits_append _ _)
    | real x =>
      rw [write, List.append_nil]
      exact exists_writeReal_eq_cons hv
    | list items => cases items <;> exact ⟨'[', _, by decide, rfl⟩
    | map entries => cases entries <;> exact ⟨'\x7b', _, by decide, rfl⟩
    | bytes | member | record => exact absurd hv (by simp [Value.ReadsBack])
  obtain ⟨c, t, hc, hwrite⟩ := hopens
  refine ⟨c, t ++ rest, hc, by simp, ?_⟩
  rw [write_append, hwrite, List.cons_append]

/-- What follows the parts of a list or map ends them. -/
theorem ends_break {c : Char} (hc : c = ']' ∨ c = '\x7d') :
    Ends (layout.break k ++ c :: rest) := by
  unfold Layout.break
  split
  · rcases hc with rfl | rfl <;> (rintro _ ⟨⟩; decide)
  · rintro _ ⟨⟩
    decide

/-- What separates two parts ends the first one. -/
theorem ends_comma : Ends (layout.comma k ++ rest) := by
  obtain ⟨gap, hgap, -⟩ := exists_comma_eq layout k
  rw [hgap]
  rintro _ ⟨⟩
  decide

/-- A list that is not empty is written between brackets, value by value. -/
theorem write_list_cons (v : Value) (items : List Value) :
    write layout k (.list (v :: items)) rest =
      '[' :: writeItems layout (k + 1) (layout.break (k + 1)) (v :: items)
        (layout.break k ++ ']' :: rest) := by
  rw [write]
  exact List.cons_ne_nil _ _

/-- A map that is not empty is written between brackets, entry by entry. -/
theorem write_map_cons (e : String × Value) (entries : List (String × Value)) :
    write layout k (.map (e :: entries)) rest =
      '\x7b' :: writeEntries layout (k + 1) (layout.break (k + 1)) (e :: entries)
        (layout.break k ++ '\x7d' :: rest) := by
  rw [write]
  exact List.cons_ne_nil _ _

section Parts

variable {fuel depth : Nat} {t : List Char}

theorem readValue_quote :
    readValue (fuel + 1) depth ('"' :: t) =
      (readText (t.length + 1) t).map fun (s, rest) => (.text (String.ofList s), rest) := rfl

/-- What is read behind the opening bracket of a list. -/
def readAfterBracket (fuel depth : Nat) : List Char → Reading Value
  | ']' :: rest => .ok (.list [], rest)
  | rest => (readItems fuel depth rest).map fun (items, rest) => (.list items, rest)

/-- What is read behind the opening brace of a map. -/
def readAfterBrace (fuel depth : Nat) : List Char → Reading Value
  | '\x7d' :: rest => .ok (.map [], rest)
  | rest =>
    (readEntries fuel depth rest).map fun (pairs, rest) => (.map (Value.entriesOf pairs), rest)

/-- A list that does not close at once is read value by value. -/
theorem readValue_list {c : Char} {u : List Char} (hc : c ≠ ']') (ht : skipBlanks t = c :: u) :
    readValue (fuel + 1) (depth + 1) ('[' :: t) =
      (readItems fuel depth (skipBlanks t)).map fun (items, rest) => (.list items, rest) := by
  change readAfterBracket fuel depth (skipBlanks t) = _
  rw [ht, readAfterBracket.eq_def]
  split
  · next heq => exact absurd (List.cons.inj heq).1 hc
  · rfl

/-- A map that does not close at once is read entry by entry. -/
theorem readValue_map {c : Char} {u : List Char} (hc : c ≠ '\x7d') (ht : skipBlanks t = c :: u) :
    readValue (fuel + 1) (depth + 1) ('\x7b' :: t) =
      (readEntries fuel depth (skipBlanks t)).map fun (pairs, rest) =>
        (.map (Value.entriesOf pairs), rest) := by
  change readAfterBrace fuel depth (skipBlanks t) = _
  rw [ht, readAfterBrace.eq_def]
  split
  · next heq => exact absurd (List.cons.inj heq).1 hc
  · rfl

/-- The last value of a list stands before its closing bracket. -/
theorem readItems_last {v : Value} (hv : readValue fuel depth t = .ok (v, rest))
    {u : List Char} (hrest : skipBlanks rest = ']' :: u) :
    readItems (fuel + 1) depth t = .ok ([v], u) := by
  change (readValue fuel depth t).bind _ = _
  rw [hv]
  simp only [Except.bind, hrest]

/-- A value before a comma stands before the other values of a list. -/
theorem readItems_comma {v : Value} (hv : readValue fuel depth t = .ok (v, rest))
    {u : List Char} (hrest : skipBlanks rest = ',' :: u) :
    readItems (fuel + 1) depth t =
      (readItems fuel depth (skipBlanks u)).map fun (more, rest) => (v :: more, rest) := by
  change (readValue fuel depth t).bind _ = _
  rw [hv]
  simp only [Except.bind, hrest]

/-- What is read behind an entry of a map: the end of the map, or a comma and the other entries. -/
def readAfterEntry (fuel depth : Nat) (entry : String × Value) :
    List Char → Reading (List (String × Value))
  | '\x7d' :: rest => .ok ([entry], rest)
  | ',' :: rest =>
    (readEntries fuel depth (skipBlanks rest)).map fun (more, rest) => (entry :: more, rest)
  | rest => .error (.at .comma rest.length)

/-- An entry is read as its key and its value, and what follows decides whether it is the last. -/
theorem readEntries_entry {key : String} (ht : skipBlanks t = t) :
    readEntries (fuel + 1) depth (writeText layout.asciiOnly key ++ ':' :: ' ' :: t) =
      (readValue fuel depth t).bind fun (v, rest) =>
        readAfterEntry fuel depth (key, v) (skipBlanks rest) := by
  have hkey : writeText layout.asciiOnly key ++ ':' :: ' ' :: t =
      '"' :: (key.toList.flatMap (writeChar layout.asciiOnly) ++ '"' :: ':' :: ' ' :: t) := by
    simp [writeText]
  have hcolon : skipBlanks (':' :: ' ' :: t) = ':' :: ' ' :: t := rfl
  have hblank : skipBlanks (' ' :: t) = skipBlanks t := rfl
  rw [hkey, readEntries.eq_def]
  simp only [readText_flatMap_writeChar, bind, Except.bind, hcolon, hblank, ht,
    String.ofList_toList]
  rfl

/-- The last entry of a map stands before its closing bracket. -/
theorem readEntries_last {key : String} {v : Value}
    (hv : readValue fuel depth t = .ok (v, rest)) (ht : skipBlanks t = t)
    {u : List Char} (hrest : skipBlanks rest = '\x7d' :: u) :
    readEntries (fuel + 1) depth (writeText layout.asciiOnly key ++ ':' :: ' ' :: t) =
      .ok ([(key, v)], u) := by
  rw [readEntries_entry ht, hv]
  simp only [Except.bind, hrest]
  rfl

/-- An entry before a comma stands before the other entries of a map. -/
theorem readEntries_comma {key : String} {v : Value}
    (hv : readValue fuel depth t = .ok (v, rest)) (ht : skipBlanks t = t)
    {u : List Char} (hrest : skipBlanks rest = ',' :: u) :
    readEntries (fuel + 1) depth (writeText layout.asciiOnly key ++ ':' :: ' ' :: t) =
      (readEntries fuel depth (skipBlanks u)).map fun (more, rest) => ((key, v) :: more, rest) := by
  rw [readEntries_entry ht, hv]
  simp only [Except.bind, hrest]
  rfl

end Parts

mutual

/-- A written value reads as itself. -/
theorem readValue_write {fuel depth k : Nat} {v : Value} {rest : List Char}
    (hv : v.ReadsBack depth) (hrest : Ends rest)
    (hfuel : 2 * (write layout k v rest).length < fuel) :
    readValue fuel depth (write layout k v rest) = .ok (v, rest) := by
  obtain ⟨fuel, rfl⟩ : ∃ n, fuel = n + 1 := ⟨fuel - 1, by omega⟩
  match v with
  | .null => rfl
  | .bool true => rfl
  | .bool false => rfl
  | .text s =>
    have hwrite : write layout k (.text s) rest =
        '"' :: (s.toList.flatMap (writeChar layout.asciiOnly) ++ '"' :: rest) := by
      simp [write, writeText]
    rw [hwrite, readValue_quote, readText_flatMap_writeChar]
    simp only [Except.map, String.ofList_toList]
  | .int n =>
    rw [write_int, readValue_sign _ (exists_toDigits_append _ _), readNumber_int hv hrest]
  | .real x =>
    rw [write]
    exact readValue_writeReal hv hrest
  | .list items =>
    obtain ⟨hdepth, hitems⟩ := hv
    obtain ⟨depth, rfl⟩ : ∃ n, depth = n + 1 := ⟨depth - 1, by omega⟩
    rw [Nat.add_sub_cancel] at hitems
    cases items with
    | nil => rfl
    | cons v items =>
      obtain ⟨c, t, hc, -, hwrite⟩ := exists_write_eq_cons layout (k + 1)
        (writeItems layout (k + 1) (layout.comma (k + 1)) items (layout.break k ++ ']' :: rest))
        hitems.1
      rw [write_list_cons] at hfuel ⊢
      rw [List.length_cons] at hfuel
      have hopen : skipBlanks (writeItems layout (k + 1) (layout.break (k + 1)) (v :: items)
          (layout.break k ++ ']' :: rest)) = c :: t := by
        rw [writeItems, hwrite, skipBlanks_append (fun _ => isBlank_break) hc.1]
      rw [readValue_list hc.2.1 hopen,
        readItems_writeItems (fun _ => isBlank_break) hitems (by omega)]
      rfl
  | .map entries =>
    obtain ⟨hdepth, hkeyed, hentries⟩ := hv
    obtain ⟨depth, rfl⟩ : ∃ n, depth = n + 1 := ⟨depth - 1, by omega⟩
    rw [Nat.add_sub_cancel] at hentries
    cases entries with
    | nil => rfl
    | cons e entries =>
      rw [write_map_cons] at hfuel ⊢
      rw [List.length_cons] at hfuel
      have hopen : ∃ t, skipBlanks (writeEntries layout (k + 1) (layout.break (k + 1))
          (e :: entries) (layout.break k ++ '\x7d' :: rest)) = '"' :: t := by
        rw [writeEntries, writeText, List.cons_append, List.append_assoc, List.cons_append,
          skipBlanks_append (fun _ => isBlank_break) rfl]
        exact ⟨_, rfl⟩
      obtain ⟨t, hopen⟩ := hopen
      rw [readValue_map (by decide) hopen,
        readEntries_writeEntries (fun _ => isBlank_break) hentries (by omega)]
      simp only [Except.map, hkeyed.entriesOf_eq]
  | .bytes _ | .member .. | .record .. => exact absurd hv (by simp [Value.ReadsBack])

/-- The written values of a list read as themselves up to its closing bracket. -/
theorem readItems_writeItems {fuel depth k l : Nat} {gap : List Char} {v : Value}
    {items : List Value} {rest : List Char} (hgap : ∀ c ∈ gap, isBlank c = true)
    (hv : Value.ItemsReadBack depth (v :: items))
    (hfuel : 2 * (writeItems layout k gap (v :: items) (layout.break l ++ ']' :: rest)).length + 1
      < fuel) :
    readItems fuel depth
        (skipBlanks (writeItems layout k gap (v :: items) (layout.break l ++ ']' :: rest))) =
      .ok (v :: items, rest) := by
  obtain ⟨fuel, rfl⟩ : ∃ n, fuel = n + 1 := ⟨fuel - 1, by omega⟩
  obtain ⟨c, t, hc, hlength, hwrite⟩ := exists_write_eq_cons layout k
    (writeItems layout k (layout.comma k) items (layout.break l ++ ']' :: rest)) hv.1
  rw [writeItems, List.length_append] at hfuel
  rw [writeItems, hwrite, skipBlanks_append hgap hc.1, ← hwrite]
  match items with
  | [] =>
    rw [writeItems] at hfuel ⊢
    have hshort : 2 * (write layout k v (layout.break l ++ ']' :: rest)).length < fuel := by
      omega
    have hvalue := readValue_write hv.1 (ends_break (.inl rfl)) hshort
    exact readItems_last hvalue (skipBlanks_append (fun _ => isBlank_break) rfl rest)
  | w :: more =>
    obtain ⟨gap', hgap', htail⟩ := exists_writeItems_comma layout k w more
      (layout.break l ++ ']' :: rest)
    rw [hwrite, List.length_cons] at hfuel
    have hends : Ends (writeItems layout k (layout.comma k) (w :: more)
        (layout.break l ++ ']' :: rest)) := by
      rw [writeItems]
      exact ends_comma
    have hshort : 2 * (write layout k v (writeItems layout k (layout.comma k) (w :: more)
        (layout.break l ++ ']' :: rest))).length < fuel := by
      rw [hwrite, List.length_cons]
      omega
    have hvalue := readValue_write hv.1 hends hshort
    rw [htail, List.length_cons] at hlength
    rw [readItems_comma hvalue (by rw [htail]; rfl), readItems_writeItems hgap' hv.2 (by omega)]
    rfl

/-- The written entries of a map read as themselves up to its closing bracket. -/
theorem readEntries_writeEntries {fuel depth k l : Nat} {gap : List Char} {e : String × Value}
    {entries : List (String × Value)} {rest : List Char} (hgap : ∀ c ∈ gap, isBlank c = true)
    (hv : Value.EntriesReadBack depth (e :: entries))
    (hfuel : 2 * (writeEntries layout k gap (e :: entries)
      (layout.break l ++ '\x7d' :: rest)).length < fuel) :
    readEntries fuel depth
        (skipBlanks (writeEntries layout k gap (e :: entries)
          (layout.break l ++ '\x7d' :: rest))) =
      .ok (e :: entries, rest) := by
  obtain ⟨fuel, rfl⟩ : ∃ n, fuel = n + 1 := ⟨fuel - 1, by omega⟩
  obtain ⟨key, v⟩ := e
  obtain ⟨c, t, hc, hlength, hwrite⟩ := exists_write_eq_cons layout k
    (writeEntries layout k (layout.comma k) entries (layout.break l ++ '\x7d' :: rest)) hv.1
  have hblanks : skipBlanks (write layout k v (writeEntries layout k (layout.comma k) entries
      (layout.break l ++ '\x7d' :: rest))) = write layout k v (writeEntries layout k
        (layout.comma k) entries (layout.break l ++ '\x7d' :: rest)) := by
    rw [hwrite]
    exact List.dropWhile_cons_of_neg (by simp [hc.1])
  have hopen : skipBlanks (writeEntries layout k gap ((key, v) :: entries)
      (layout.break l ++ '\x7d' :: rest)) =
      writeText layout.asciiOnly key ++ ':' :: ' ' :: write layout k v
        (writeEntries layout k (layout.comma k) entries (layout.break l ++ '\x7d' :: rest)) := by
    rw [writeEntries, writeText, List.cons_append, List.append_assoc, List.cons_append,
      skipBlanks_append hgap rfl]
  have hshort : 2 * (write layout k v (writeEntries layout k (layout.comma k) entries
      (layout.break l ++ '\x7d' :: rest))).length < fuel := by
    simp only [writeEntries, List.length_append, List.length_cons] at hfuel
    omega
  rw [hopen]
  cases entries with
  | nil =>
    rw [writeEntries] at hblanks hshort ⊢
    have hvalue := readValue_write hv.1 (ends_break (.inr rfl)) hshort
    exact readEntries_last hvalue hblanks (skipBlanks_append (fun _ => isBlank_break) rfl rest)
  | cons e' more =>
    obtain ⟨gap', hgap', htail⟩ := exists_writeEntries_comma layout k e' more
      (layout.break l ++ '\x7d' :: rest)
    have hends : Ends (writeEntries layout k (layout.comma k) (e' :: more)
        (layout.break l ++ '\x7d' :: rest)) := by
      rw [writeEntries, List.append_assoc]
      exact ends_comma
    have hvalue := readValue_write hv.1 hends hshort
    rw [hwrite, List.length_cons] at hshort
    rw [htail, List.length_cons] at hlength
    rw [readEntries_comma hvalue hblanks (by rw [htail]; rfl),
      readEntries_writeEntries hgap' hv.2 (by omega)]
    rfl

end

/-- A text that begins with a value is read as this value and what follows it. -/
theorem readWhole_cons {c : Char} (hc : Opens c) (t : List Char) :
    readWhole (c :: t) =
      (readValue (2 * (c :: t).length + 1) depthLimit (c :: t)).bind fun (v, rest) =>
        match skipBlanks rest with
        | [] => .ok v
        | rest => .error (.at .extra rest.length) := by
  have hmark : c ≠ '\uFEFF' := by
    rintro rfl
    exact absurd hc.2.2 (by decide)
  have hopen : skipBlanks (c :: t) = c :: t := List.dropWhile_cons_of_neg (by simp [hc.1])
  unfold readWhole
  split
  · next heq => exact absurd (List.cons.inj heq).1 hmark
  · rw [hopen]
    rfl

/-- A written value with blanks behind it is read as a whole. -/
theorem read_write {v : Value} (hv : v.ReadsBack depthLimit) {blanks : List Char}
    (hblanks : ∀ c ∈ blanks, isBlank c = true) :
    read (String.ofList (write layout 0 v blanks)) = .ok v := by
  have hdrop : skipBlanks blanks = [] := List.dropWhile_eq_nil_iff.mpr hblanks
  have hends : Ends blanks := by
    intro c hc
    have hblank := hblanks c (List.mem_of_mem_head? hc)
    simp only [isBlank, Bool.or_eq_true, beq_iff_eq] at hblank
    rcases hblank with ((rfl | rfl) | rfl) | rfl <;> decide
  obtain ⟨c, t, hc, -, hwrite⟩ := exists_write_eq_cons layout 0 blanks hv
  have hread : readValue (2 * (write layout 0 v blanks).length + 1) depthLimit
      (write layout 0 v blanks) = .ok (v, blanks) :=
    readValue_write hv hends (Nat.lt_succ_self _)
  have hwhole : readWhole (write layout 0 v blanks) = .ok v := by
    rw [hwrite] at hread ⊢
    rw [readWhole_cons hc, hread]
    simp only [Except.bind, hdrop]
  rw [read, String.toList_ofList, hwhole]
  rfl

/-- A map whose number has too many digits is refused for this number. -/
theorem read_tooManyDigits (key : String) {whole : List Char} (hwhole : Leads whole)
    (hlong : digitLimit < whole.length) :
    read (String.ofList ('\x7b' :: (writeText true key ++ ':' :: ' ' :: (whole ++ ['\x7d'])))) =
      .error (.tooManyDigits whole.length) := by
  obtain ⟨c, cs, hcons, hdigit⟩ := hwhole.exists_eq_cons
  have hends : Ends ['\x7d'] := by
    rintro _ ⟨⟩
    decide
  have hopen : skipBlanks (whole ++ ['\x7d']) = whole ++ ['\x7d'] := by
    rw [hcons, List.cons_append]
    exact List.dropWhile_cons_of_neg (by simp [(opens_of_isDigit hdigit).1])
  have hnumber (fuel depth : Nat) : readValue (fuel + 1) depth (whole ++ ['\x7d']) =
      .error (.digits whole.length) := by
    have hvalue : readValue (fuel + 1) depth (c :: (cs ++ ['\x7d'])) = _ :=
      readValue_eq_readNumber (.inl hdigit)
    rw [← List.cons_append, ← hcons] at hvalue
    exact hvalue.trans (readNumber_tooManyDigits false hwhole hlong hends)
  have hentries (fuel depth : Nat) : readEntries (fuel + 2) depth
      (writeText true key ++ ':' :: ' ' :: (whole ++ ['\x7d'])) =
        .error (.digits whole.length) := by
    have hentry : readEntries (fuel + 2) depth
        (writeText Layout.line.asciiOnly key ++ ':' :: ' ' :: (whole ++ ['\x7d'])) = _ :=
      readEntries_entry hopen
    rw [hnumber] at hentry
    exact hentry
  obtain ⟨t, hquote⟩ : ∃ t, writeText true key ++ ':' :: ' ' :: (whole ++ ['\x7d']) = '"' :: t :=
    ⟨_, rfl⟩
  rw [hquote] at hentries ⊢
  have hmap (fuel depth : Nat) : readValue (fuel + 3) (depth + 1) ('\x7b' :: '"' :: t) =
      .error (.digits whole.length) := by
    rw [readValue_map (c := '"') (u := t) (by decide) rfl]
    exact congrArg (Except.map _) (hentries fuel depth)
  rw [read, String.toList_ofList, readWhole_cons (by decide)]
  have hread := hmap (2 * t.length + 2) (depthLimit - 1)
  rw [show 2 * t.length + 2 + 3 = 2 * ('\x7b' :: '"' :: t).length + 1 by simp; omega,
    show depthLimit - 1 + 1 = depthLimit from rfl] at hread
  rw [hread]
  rfl

/-- A text that opens one list more than may stand inside one another is refused for its depth. -/
theorem readValue_tooDeep (rest : List Char) (hfuel : 2 * depth < fuel) :
    readValue fuel depth (List.replicate (depth + 1) '[' ++ rest) = .error (.depth .list) := by
  induction depth generalizing fuel with
  | zero =>
    obtain ⟨fuel, rfl⟩ : ∃ n, fuel = n + 1 := ⟨fuel - 1, by omega⟩
    rfl
  | succ depth ih =>
    obtain ⟨fuel, rfl⟩ : ∃ n, fuel = n + 2 := ⟨fuel - 2, by omega⟩
    rw [List.replicate_succ, List.cons_append,
      readValue_list (c := '[') (u := List.replicate depth '[' ++ rest) (by decide) rfl]
    have hskip : skipBlanks (List.replicate (depth + 1) '[' ++ rest) =
        List.replicate (depth + 1) '[' ++ rest := rfl
    rw [hskip, readItems, ih (by omega)]
    rfl

theorem read_tooDeep (rest : List Char) :
    read (String.ofList (List.replicate (depthLimit + 1) '[' ++ rest)) =
      .error (.tooDeep .list) := by
  rw [read, String.toList_ofList, List.replicate_succ, List.cons_append,
    readWhole_cons (by decide), ← List.cons_append, ← List.replicate_succ,
    readValue_tooDeep rest (by simp; omega)]
  rfl

end Json

end BearerSession
