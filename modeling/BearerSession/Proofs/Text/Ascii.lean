import BearerSession.Text.Utf8

/-!
# ASCII text as bytes

The UTF-8 form of ASCII text has one byte for each character, the one of its number, and reads back
as it was.
-/

namespace BearerSession.Text.Utf8

variable {s : List Char}

/-- The form of an ASCII character is the byte of its number. -/
theorem utf8EncodeChar_of_ascii {c : Char} (h : c.toNat < 0x80) :
    String.utf8EncodeChar c = [UInt8.ofNat c.toNat] :=
  if_pos (Nat.le_of_lt_succ h)

/-- ASCII text has one byte for each character. -/
theorem encode_of_ascii (h : ∀ c ∈ s, c.toNat < 0x80) :
    encode s = s.map fun c => UInt8.ofNat c.toNat := by
  induction s with
  | nil => rfl
  | cons c rest ih =>
    have hrest := ih fun d hd => h d (List.mem_cons_of_mem c hd)
    rw [encode] at hrest ⊢
    rw [List.flatMap_cons, hrest, utf8EncodeChar_of_ascii (h c List.mem_cons_self)]
    rfl

/-- A byte made of a number that is not too great has this number. -/
theorem toNat_ofNat_of_lt {n : Nat} (h : n < 256) : (UInt8.ofNat n).toNat = n := by
  rw [UInt8.toNat_ofNat']
  exact Nat.mod_eq_of_lt h

/-- The byte of an ASCII character has its number. -/
theorem toNat_ofNat_of_ascii {c : Char} (h : c.toNat < 0x80) :
    (UInt8.ofNat c.toNat).toNat = c.toNat :=
  toNat_ofNat_of_lt (Nat.lt_trans h (by decide))

/-- ASCII text reads back from its bytes. -/
theorem decode_encode_of_ascii (h : ∀ c ∈ s, c.toNat < 0x80) : decode (encode s) = .ok s := by
  have hfrom (position : Nat) : decodeFrom position (encode s) = .ok s := by
    rw [encode_of_ascii h]
    induction s generalizing position with
    | nil => rfl
    | cons c rest ih =>
      have hc := h c List.mem_cons_self
      rw [List.map_cons, decodeFrom.eq_def]
      simp only [toNat_ofNat_of_ascii hc, hc, if_true,
        ih (fun d hd => h d (List.mem_cons_of_mem c hd)), prepend, Except.map, Char.ofNat_toNat]
  exact hfrom 0

/-- Text without returns has only line feeds for its line ends. -/
theorem normalizeLineEnds_of_not_mem (h : '\r' ∉ s) : normalizeLineEnds s = s := by
  induction s with
  | nil => rfl
  | cons c rest ih =>
    rw [List.mem_cons, not_or] at h
    unfold normalizeLineEnds
    split
    · next heq => exact absurd (List.cons.inj heq).1.symm h.1
    · next heq => exact absurd (List.cons.inj heq).1.symm h.1
    · next heq =>
      obtain ⟨rfl, rfl⟩ := List.cons.inj heq
      rw [ih h.2]
    · next heq => exact absurd heq (List.cons_ne_nil _ _)

end BearerSession.Text.Utf8
