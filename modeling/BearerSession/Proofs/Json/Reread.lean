import BearerSession.Proofs.Json.RoundTrip

/-!
# Writing what was read

Whatever is read can be written and read back: its maps have each key once, its numbers are not too
long, and it is nested no deeper than is read. So can the same value with its keys in order.
-/

namespace BearerSession

namespace Value

/-- All values of a map read back just where each of them does. -/
theorem entriesReadBack_iff {depth : Nat} {entries : List (String × Value)} :
    EntriesReadBack depth entries ↔ ∀ e ∈ entries, e.2.ReadsBack depth := by
  induction entries with
  | nil => simp [EntriesReadBack]
  | cons e entries ih => rw [EntriesReadBack, ih, List.forall_mem_cons]

/-- A map of pairs has no other values than these. -/
theorem EntriesReadBack.entriesOf {depth : Nat} {pairs : List (String × Value)}
    (h : EntriesReadBack depth pairs) : EntriesReadBack depth (entriesOf pairs) := by
  rw [entriesReadBack_iff] at h ⊢
  exact forall_mem_entriesOf h

/-- Putting the keys of the values of a map in order leaves its own keys. -/
theorem keys_sortedEntries (entries : List (String × Value)) :
    (sortedEntries entries).map Prod.fst = entries.map Prod.fst := by
  induction entries with
  | nil => rfl
  | cons e entries ih => rw [sortedEntries, List.map_cons, List.map_cons, ih]

mutual

/-- A value with its keys in order reads back like the value. -/
theorem ReadsBack.sorted {depth : Nat} {v : Value} (h : v.ReadsBack depth) :
    v.sorted.ReadsBack depth := by
  match v with
  | .null | .bool _ | .text _ | .int _ | .real _ => exact h
  | .list items => exact ⟨h.1, h.2.sorted⟩
  | .map entries =>
    obtain ⟨hdepth, hkeyed, hentries⟩ := h
    have hperm := (sortedEntries entries).mergeSort_perm fun a b => decide (a.1 ≤ b.1)
    have hsorted : Keyed (sortedEntries entries) := by
      unfold Keyed
      rwa [keys_sortedEntries]
    refine ⟨hdepth, hsorted.perm hperm.symm, entriesReadBack_iff.mpr fun e he => ?_⟩
    exact entriesReadBack_iff.mp hentries.sorted e (hperm.mem_iff.mp he)

/-- So do the values of a list. -/
theorem ItemsReadBack.sorted {depth : Nat} {items : List Value} (h : ItemsReadBack depth items) :
    ItemsReadBack depth (sortedItems items) := by
  match items with
  | [] => trivial
  | v :: rest => exact ⟨h.1.sorted, h.2.sorted⟩

/-- So do the values of a map. -/
theorem EntriesReadBack.sorted {depth : Nat} {entries : List (String × Value)}
    (h : EntriesReadBack depth entries) : EntriesReadBack depth (sortedEntries entries) := by
  match entries with
  | [] => trivial
  | (k, v) :: rest => exact ⟨h.1.sorted, h.2.sorted⟩

end

mutual

/-- A value that reads back has a JSON form. -/
theorem ReadsBack.unstorable?_eq_none {depth : Nat} {v : Value} (h : v.ReadsBack depth) :
    v.unstorable? = none := by
  match v with
  | .null | .bool _ | .text _ | .int _ | .real _ => rfl
  | .list _ => exact h.2.unstorableItem?_eq_none
  | .map _ => exact h.2.2.unstorablePair?_eq_none

/-- So have the values of a list. -/
theorem ItemsReadBack.unstorableItem?_eq_none {depth : Nat} {items : List Value}
    (h : ItemsReadBack depth items) : unstorableItem? items = none := by
  match items with
  | [] => rfl
  | _ :: _ =>
    rw [unstorableItem?, h.1.unstorable?_eq_none, h.2.unstorableItem?_eq_none]
    rfl

/-- So have the values of a map. -/
theorem EntriesReadBack.unstorablePair?_eq_none {depth : Nat} {entries : List (String × Value)}
    (h : EntriesReadBack depth entries) : unstorablePair? entries = none := by
  match entries with
  | [] => rfl
  | _ :: _ =>
    rw [unstorablePair?, h.1.unstorable?_eq_none, h.2.unstorablePair?_eq_none]
    rfl

end

end Value

namespace Json

open Number (splitDigits digitsValue)

variable {fuel depth : Nat} {s rest : List Char} {v : Value}

/-- A number that was read is short enough, or canonical. -/
theorem readsBack_of_readNumberTail {negative : Bool} {whole : List Char}
    (hwhole : ∀ c ∈ whole, c.isDigit = true)
    (h : readNumberTail negative whole s = .ok (v, rest)) : v.ReadsBack depth := by
  unfold readNumberTail at h
  dsimp only at h
  split at h
  · split at h
    · contradiction
    · next hlength =>
      cases h
      have hvalue := Nat.lt_of_lt_of_le (Number.digitsValue_lt hwhole)
        (Nat.pow_le_pow_right (by decide : 0 < 10) (Nat.le_of_not_lt hlength))
      simp only [Value.ReadsBack]
      split
      · rwa [Int.natAbs_neg, Int.natAbs_natCast]
      · rwa [Int.natAbs_natCast]
  · cases h
    exact Binary64.canonical_ofDecimal _ _ _

/-- So is a number with its sign. -/
theorem readsBack_of_readNumber (h : readNumber s = .ok (v, rest)) : v.ReadsBack depth := by
  unfold readNumber at h
  dsimp only at h
  split at h
  · exact readsBack_of_readNumberTail (List.forall_mem_singleton.mpr rfl) h
  · split at h
    · exact readsBack_of_readNumberTail (fun c => List.mem_takeWhile_imp) h
    · contradiction
  · contradiction

/-- What is mapped was read, and is what became of it. -/
theorem exists_of_map_eq_ok {ε α β : Type} {r : Except ε α} {f : α → β} {b : β}
    (h : r.map f = .ok b) : ∃ a, r = .ok a ∧ f a = b := by
  cases r with
  | error e => contradiction
  | ok a => exact ⟨a, rfl, Except.ok.inj h⟩

/-- What goes on from something read was read, and went on to what it became. -/
theorem exists_of_bind_eq_ok {ε α β : Type} {r : Except ε α} {f : α → Except ε β} {b : β}
    (h : r >>= f = .ok b) : ∃ a, r = .ok a ∧ f a = .ok b := by
  cases r with
  | error e => contradiction
  | ok a => exact ⟨a, rfl, h⟩

/-- The names of values. -/
inductive Named : List Char → Value → Prop where
  /-- No value. -/
  | null : Named "null".toList .null
  /-- A truth value. -/
  | yes : Named "true".toList (.bool true)
  /-- The other one. -/
  | no : Named "false".toList (.bool false)
  /-- What is no number. -/
  | nan : Named "NaN".toList (.real .nan)
  /-- An infinity. -/
  | infinite : Named "Infinity".toList (.real (.infinite false))
  /-- The other one. -/
  | negativeInfinite : Named "-Infinity".toList (.real (.infinite true))

/-- What the reader does with a value, by what the text begins with. -/
inductive ValueStep (fuel depth : Nat) : List Char → Reading Value → Prop where
  /-- A text is read up to its closing quote. -/
  | text {s : List Char} : ValueStep fuel depth ('"' :: s)
      ((readText (s.length + 1) s).map fun (t, rest) => (.text (String.ofList t), rest))
  /-- A map may stand inside too many others. -/
  | deepMap {s : List Char} (deep : depth = 0) :
      ValueStep fuel depth ('\x7b' :: s) (.error (.depth .map))
  /-- A map may have no entries. -/
  | noEntries {s rest : List Char} (room : depth ≠ 0) (closed : skipBlanks s = '\x7d' :: rest) :
      ValueStep fuel depth ('\x7b' :: s) (.ok (.map [], rest))
  /-- The entries of a map are read. -/
  | map {s : List Char} (room : depth ≠ 0) : ValueStep fuel depth ('\x7b' :: s)
      ((readEntries fuel (depth - 1) (skipBlanks s)).map fun (pairs, rest) =>
        (.map (Value.entriesOf pairs), rest))
  /-- A list may stand inside too many others. -/
  | deepList {s : List Char} (deep : depth = 0) :
      ValueStep fuel depth ('[' :: s) (.error (.depth .list))
  /-- A list may have no values. -/
  | noItems {s rest : List Char} (room : depth ≠ 0) (closed : skipBlanks s = ']' :: rest) :
      ValueStep fuel depth ('[' :: s) (.ok (.list [], rest))
  /-- The values of a list are read. -/
  | list {s : List Char} (room : depth ≠ 0) : ValueStep fuel depth ('[' :: s)
      ((readItems fuel (depth - 1) (skipBlanks s)).map fun (items, rest) => (.list items, rest))
  /-- A name is taken for its value. -/
  | name {name rest : List Char} {v : Value} (named : Named name v) :
      ValueStep fuel depth (name ++ rest) (.ok (v, rest))
  /-- Everything else is read as a number. -/
  | number {s : List Char} : ValueStep fuel depth s (readNumber s)

theorem valueStep (fuel depth : Nat) (s : List Char) :
    ValueStep fuel depth s (readValue (fuel + 1) depth s) := by
  unfold readValue
  split
  · exact .text
  · split
    · next hdepth => exact .deepMap hdepth
    · next hdepth =>
      split
      · next hclosed => exact .noEntries hdepth hclosed
      · exact .map hdepth
  · split
    · next hdepth => exact .deepList hdepth
    · next hdepth =>
      split
      · next hclosed => exact .noItems hdepth hclosed
      · exact .list hdepth
  · exact .name .null
  · exact .name .yes
  · exact .name .no
  · exact .name .nan
  · exact .name .infinite
  · exact .name .negativeInfinite
  · exact .number

mutual

/-- A value that was read reads back. -/
theorem readsBack_of_readValue {fuel depth : Nat} {s rest : List Char} {v : Value}
    (h : readValue fuel depth s = .ok (v, rest)) : v.ReadsBack depth := by
  match fuel with
  | 0 => simp [readValue] at h
  | fuel + 1 =>
    have hstep := valueStep fuel depth s
    generalize readValue (fuel + 1) depth s = found at h hstep
    cases hstep with
    | text =>
      obtain ⟨_, -, heq⟩ := exists_of_map_eq_ok h
      cases heq
      trivial
    | deepMap | deepList => contradiction
    | noEntries room =>
      cases h
      exact ⟨Nat.pos_of_ne_zero room, List.nodup_nil, trivial⟩
    | map room =>
      obtain ⟨_, hentries, heq⟩ := exists_of_map_eq_ok h
      cases heq
      exact ⟨Nat.pos_of_ne_zero room, Value.keyed_entriesOf _,
        (readsBack_of_readEntries hentries).entriesOf⟩
    | noItems room =>
      cases h
      exact ⟨Nat.pos_of_ne_zero room, trivial⟩
    | list room =>
      obtain ⟨_, hitems, heq⟩ := exists_of_map_eq_ok h
      cases heq
      exact ⟨Nat.pos_of_ne_zero room, readsBack_of_readItems hitems⟩
    | name named =>
      cases h
      cases named <;> trivial
    | number => exact readsBack_of_readNumber h

/-- So do the entries of a map. -/
theorem readsBack_of_readEntries {fuel depth : Nat} {s rest : List Char}
    {entries : List (String × Value)} (h : readEntries fuel depth s = .ok (entries, rest)) :
    Value.EntriesReadBack depth entries := by
  match fuel with
  | 0 => simp [readEntries] at h
  | fuel + 1 =>
    unfold readEntries at h
    split at h
    · obtain ⟨_, -, h⟩ := exists_of_bind_eq_ok h
      dsimp only at h
      split at h
      · obtain ⟨_, hvalue, h⟩ := exists_of_bind_eq_ok h
        have hfirst := readsBack_of_readValue hvalue
        split at h
        · cases h
          exact ⟨hfirst, trivial⟩
        · obtain ⟨_, hmore, heq⟩ := exists_of_map_eq_ok h
          cases heq
          exact ⟨hfirst, readsBack_of_readEntries hmore⟩
        · contradiction
      · contradiction
    · contradiction

/-- So do the values of a list. -/
theorem readsBack_of_readItems {fuel depth : Nat} {s rest : List Char} {items : List Value}
    (h : readItems fuel depth s = .ok (items, rest)) : Value.ItemsReadBack depth items := by
  match fuel with
  | 0 => simp [readItems] at h
  | fuel + 1 =>
    unfold readItems at h
    obtain ⟨_, hvalue, h⟩ := exists_of_bind_eq_ok h
    have hfirst := readsBack_of_readValue hvalue
    dsimp only at h
    split at h
    · cases h
      exact ⟨hfirst, trivial⟩
    · obtain ⟨_, hmore, heq⟩ := exists_of_map_eq_ok h
      cases heq
      exact ⟨hfirst, readsBack_of_readItems hmore⟩
    · contradiction

end

/-- A text is read as what all of it is read as. -/
theorem readWhole_of_read {s : String} (h : read s = .ok v) : readWhole s.toList = .ok v := by
  unfold read at h
  cases hwhole : readWhole s.toList with
  | error e => simp [hwhole, Except.mapError] at h
  | ok w => simpa [hwhole, Except.mapError] using h

/-- A value that is a whole text reads back. -/
theorem readsBack_of_read {s : String} (h : read s = .ok v) : v.ReadsBack depthLimit := by
  have hwhole := readWhole_of_read h
  unfold readWhole at hwhole
  split at hwhole
  · contradiction
  · obtain ⟨_, hvalue, h⟩ := exists_of_bind_eq_ok hwhole
    dsimp only at h
    split at h
    · cases h
      exact readsBack_of_readValue hvalue
    · contradiction

/-- A map that is a whole text has each key once. -/
theorem keyed_of_read {s : String} {entries : List (String × Value)}
    (h : read s = .ok (.map entries)) : Value.Keyed entries :=
  (readsBack_of_read h).2.1

/-- A value that reads back has an encoding that reads as this value. -/
theorem exists_encode (layout : Layout) (h : v.ReadsBack depthLimit) :
    ∃ raw, encode layout v = .ok raw ∧ read raw = .ok v := by
  refine ⟨String.ofList (write layout 0 v []), ?_, read_write h (List.forall_mem_nil _)⟩
  simp only [encode, h.unstorable?_eq_none]

end Json

end BearerSession
