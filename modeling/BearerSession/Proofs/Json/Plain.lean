import Mathlib.Data.Bool.AllAny
import BearerSession.Proofs.Json.RoundTrip
import BearerSession.Proofs.Text.Ascii

/-!
# JSON in plain characters

In a layout that escapes all characters outside ASCII, a value is written in visible ASCII
characters, spaces and line feeds alone.
-/

namespace BearerSession.Json

open Text (hex)

variable {layout : Layout} {k : Nat} {rest : List Char}

/-- Whether a character is a line feed, a space or a visible ASCII character. -/
def Plain (c : Char) : Prop := c = '\n' ∨ 0x20 ≤ c.toNat ∧ c.toNat < 0x7F

instance (c : Char) : Decidable (Plain c) :=
  inferInstanceAs (Decidable (c = '\n' ∨ 0x20 ≤ c.toNat ∧ c.toNat < 0x7F))

/-- Plain characters are ASCII. -/
theorem Plain.lt {c : Char} (h : Plain c) : c.toNat < 0x80 := by
  rcases h with rfl | h
  · decide
  · omega

/-- Digits in any base up to sixteen are plain. -/
theorem plain_digitChar {d : Nat} (h : d < 16) : Plain (Nat.digitChar d) := by
  interval_cases d <;> decide

/-- So are hexadecimal digits. -/
theorem plain_hex (width n : Nat) : ∀ c ∈ hex width n, Plain c := by
  induction width generalizing n with
  | zero => exact List.forall_mem_nil _
  | succ width ih =>
    rw [hex, List.forall_mem_append, List.forall_mem_singleton]
    exact ⟨ih _, plain_digitChar (Nat.mod_lt n (by decide))⟩

/-- So is the escape of a unit. -/
theorem plain_unicodeEscape (n : Nat) : ∀ c ∈ unicodeEscape n, Plain c := by
  rw [unicodeEscape, List.forall_mem_cons, List.forall_mem_cons]
  exact ⟨by decide, by decide, plain_hex 4 n⟩

/-- So is each character of a text, as it is written. -/
theorem plain_writeChar (c : Char) : ∀ d ∈ writeChar true c, Plain d := by
  unfold writeChar
  extract_lets n
  split_ifs with hquote hfeed hreturn htab hback hform hcontrol hplain hplane
  · rcases hquote with rfl | rfl <;> exact List.all_iff_forall_prop.mp rfl
  · exact List.all_iff_forall_prop.mp rfl
  · exact List.all_iff_forall_prop.mp rfl
  · exact List.all_iff_forall_prop.mp rfl
  · exact List.all_iff_forall_prop.mp rfl
  · exact List.all_iff_forall_prop.mp rfl
  · exact plain_unicodeEscape n
  · rintro d hd
    obtain rfl := List.mem_singleton.mp hd
    exact .inr ⟨Nat.le_of_not_lt hcontrol, hplain.resolve_right (by decide)⟩
  · exact plain_unicodeEscape n
  · exact List.forall_mem_append.mpr ⟨plain_unicodeEscape _, plain_unicodeEscape _⟩

/-- So is a text between its quotes. -/
theorem plain_writeText (s : String) : ∀ c ∈ writeText true s, Plain c := by
  rw [writeText, List.forall_mem_append, List.forall_mem_cons]
  refine ⟨⟨by decide, fun c hc => ?_⟩, List.all_iff_forall_prop.mp rfl⟩
  obtain ⟨d, -, hd⟩ := List.mem_flatMap.mp hc
  exact plain_writeChar d c hd

/-- So is each decimal digit. -/
theorem plain_of_isDigit {c : Char} (h : c.isDigit = true) : Plain c := by
  have hrange : 48 ≤ c.toNat ∧ c.toNat ≤ 57 := by
    simpa [Char.isDigit, UInt32.le_iff_toNat_le] using h
  exact .inr (by omega)

/-- So are the digits of a number. -/
theorem plain_toDigits (n : Nat) : ∀ c ∈ Nat.toDigits 10 n, Plain c :=
  fun _ hc => plain_of_isDigit (Number.isDigit_toDigits hc)

/-- So are zeros. -/
theorem plain_replicate_zero (n : Nat) : ∀ c ∈ List.replicate n '0', Plain c := by
  intro c hc
  rw [List.eq_of_mem_replicate hc]
  decide

/-- So are digits with a point among them. -/
theorem plain_positional {digits : List Char} (h : ∀ c ∈ digits, Plain c) (whole : Int) :
    ∀ c ∈ Binary64.positional digits whole, Plain c := by
  unfold Binary64.positional
  split
  · rw [List.cons_append, List.cons_append, List.forall_mem_cons, List.forall_mem_cons,
      List.forall_mem_append]
    exact ⟨by decide, by decide, plain_replicate_zero _, h⟩
  · dsimp only
    rw [List.forall_mem_append, List.forall_mem_append, List.forall_mem_cons]
    refine ⟨⟨fun c hc => h c (List.mem_of_mem_take hc), plain_replicate_zero _⟩, by decide, ?_⟩
    split
    · exact List.forall_mem_singleton.mpr (by decide)
    · exact fun c hc => h c (List.mem_of_mem_drop hc)

/-- So are digits with an exponent behind them. -/
theorem plain_scientific {digits : List Char} (h : ∀ c ∈ digits, Plain c) (hne : digits ≠ [])
    (top : Int) : ∀ c ∈ Binary64.scientific digits top, Plain c := by
  obtain ⟨c, cs, rfl⟩ := List.exists_cons_of_ne_nil hne
  rw [List.forall_mem_cons] at h
  rw [scientific_cons, List.forall_mem_append, List.forall_mem_append, List.forall_mem_singleton,
    List.forall_mem_cons, List.forall_mem_cons]
  refine ⟨⟨h.1, ?_⟩, by decide, ?_, fun d hd => ?_⟩
  · unfold point
    split
    · exact List.forall_mem_nil _
    · exact List.forall_mem_cons.mpr ⟨by decide, h.2⟩
  · unfold exponentSign
    split <;> decide
  · exact plain_of_isDigit ((exponentDigits_spec top).1 d hd)

/-- So are they in the layout that their size asks for. -/
theorem plain_layOut {digits : List Char} (h : Shown digits) (top : Int) :
    ∀ c ∈ layOut digits top, Plain c := by
  have hplain : ∀ c ∈ digits, Plain c := fun c hc => plain_of_isDigit (h.isDigit c hc)
  obtain ⟨c, cs, hcons, -⟩ := h.head
  unfold layOut
  split
  · exact plain_positional hplain _
  · exact plain_scientific hplain (hcons ▸ List.cons_ne_nil c cs) top

/-- So is a double. -/
theorem plain_writeReal {x : Binary64} (hx : x.Canonical) : ∀ c ∈ writeReal x, Plain c := by
  match x with
  | .nan | .infinite false | .infinite true => exact List.all_iff_forall_prop.mp rfl
  | .finite negative mantissa exponent =>
    have hsign : ∀ c ∈ if negative then ['-'] else [], Plain c := by
      split <;> exact List.all_iff_forall_prop.mp rfl
    rw [writeReal]
    · obtain rfl | hpos := Nat.eq_zero_or_pos mantissa
      · rw [toList_text_zero, List.forall_mem_append]
        exact ⟨hsign, List.all_iff_forall_prop.mp rfl⟩
      · obtain ⟨hn, -⟩ := Binary64.shortest_spec hx hpos
        have hshown := shown_dropTrailingZeros hn
        rw [toList_text negative hpos, List.forall_mem_append]
        exact ⟨hsign, plain_layOut hshown _⟩
    all_goals simp

/-- So is what stands between two parts of a value. -/
theorem plain_break (layout : Layout) (k : Nat) : ∀ c ∈ layout.break k, Plain c := by
  intro c hc
  have hblank := isBlank_break hc
  unfold Layout.break at hc
  split at hc
  · contradiction
  · rcases List.mem_cons.mp hc with rfl | hc
    · decide
    · rw [List.eq_of_mem_replicate hc]
      decide

/-- So is a comma with what follows it. -/
theorem plain_comma (layout : Layout) (k : Nat) : ∀ c ∈ layout.comma k, Plain c := by
  unfold Layout.comma
  split
  · exact List.all_iff_forall_prop.mp rfl
  · exact List.forall_mem_cons.mpr ⟨by decide, plain_break layout k⟩

mutual

/-- A value is written in plain characters where these follow it. -/
theorem plain_write (hlayout : layout.asciiOnly = true) {depth k : Nat} {v : Value}
    {rest : List Char} (hv : v.ReadsBack depth) (hrest : ∀ c ∈ rest, Plain c) :
    ∀ c ∈ write layout k v rest, Plain c := by
  match v with
  | .null | .bool true | .bool false =>
    exact List.forall_mem_append.mpr ⟨List.all_iff_forall_prop.mp rfl, hrest⟩
  | .text s =>
    rw [write, hlayout]
    exact List.forall_mem_append.mpr ⟨plain_writeText s, hrest⟩
  | .int n =>
    rw [write_int, List.forall_mem_append, List.forall_mem_append]
    refine ⟨?_, plain_toDigits _, hrest⟩
    split <;> exact List.all_iff_forall_prop.mp rfl
  | .real x =>
    rw [write, List.forall_mem_append]
    exact ⟨plain_writeReal hv, hrest⟩
  | .list [] | .map [] =>
    simp only [write, List.forall_mem_cons]
    exact ⟨by decide, by decide, hrest⟩
  | .list (v :: items) =>
    rw [write_list_cons, List.forall_mem_cons]
    refine ⟨by decide, plain_writeItems hlayout hv.2 (plain_break layout _) ?_⟩
    rw [List.forall_mem_append, List.forall_mem_cons]
    exact ⟨plain_break layout k, by decide, hrest⟩
  | .map (e :: entries) =>
    rw [write_map_cons, List.forall_mem_cons]
    refine ⟨by decide, plain_writeEntries hlayout hv.2.2 (plain_break layout _) ?_⟩
    rw [List.forall_mem_append, List.forall_mem_cons]
    exact ⟨plain_break layout k, by decide, hrest⟩
  | .bytes _ | .member .. | .record .. => exact absurd hv (by simp [Value.ReadsBack])

/-- So are the values of a list. -/
theorem plain_writeItems (hlayout : layout.asciiOnly = true) {depth k : Nat}
    {gap : List Char} {items : List Value} {rest : List Char}
    (hv : Value.ItemsReadBack depth items) (hgap : ∀ c ∈ gap, Plain c)
    (hrest : ∀ c ∈ rest, Plain c) :
    ∀ c ∈ writeItems layout k gap items rest, Plain c := by
  match items with
  | [] => exact hrest
  | v :: items =>
    rw [writeItems, List.forall_mem_append]
    exact ⟨hgap, plain_write hlayout hv.1
      (plain_writeItems hlayout hv.2 (plain_comma layout k) hrest)⟩

/-- So are the entries of a map. -/
theorem plain_writeEntries (hlayout : layout.asciiOnly = true) {depth k : Nat}
    {gap : List Char} {entries : List (String × Value)} {rest : List Char}
    (hv : Value.EntriesReadBack depth entries) (hgap : ∀ c ∈ gap, Plain c)
    (hrest : ∀ c ∈ rest, Plain c) :
    ∀ c ∈ writeEntries layout k gap entries rest, Plain c := by
  match entries with
  | [] => exact hrest
  | (key, v) :: entries =>
    rw [writeEntries, List.append_assoc, List.forall_mem_append, List.forall_mem_append,
      List.forall_mem_cons, List.forall_mem_cons, hlayout]
    exact ⟨hgap, plain_writeText key, by decide, by decide, plain_write hlayout hv.1
      (plain_writeEntries hlayout hv.2 (plain_comma layout k) hrest)⟩

end

/-- The text that is written to a file for a value is its own decoding, has no other line ends than
line feeds, and reads as this value. -/
theorem writeFile_spec {v : Value} (hv : v.ReadsBack depthLimit) :
    Text.Utf8.decode (Text.Utf8.encode (write .file 0 v ['\n'])) = .ok (write .file 0 v ['\n']) ∧
      Text.Utf8.normalizeLineEnds (write .file 0 v ['\n']) = write .file 0 v ['\n'] ∧
      read (String.ofList (write .file 0 v ['\n'])) = .ok v := by
  have hplain : ∀ c ∈ write .file 0 v ['\n'], Plain c :=
    plain_write rfl hv (List.all_iff_forall_prop.mp rfl)
  have hreturn : '\r' ∉ write .file 0 v ['\n'] := fun hmem => absurd (hplain _ hmem) (by decide)
  exact ⟨Text.Utf8.decode_encode_of_ascii fun c hc => (hplain c hc).lt,
    Text.Utf8.normalizeLineEnds_of_not_mem hreturn,
    read_write hv (List.forall_mem_singleton.mpr rfl)⟩

end BearerSession.Json
