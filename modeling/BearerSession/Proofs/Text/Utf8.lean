import Mathlib.Tactic.SplitIfs
import BearerSession.Proofs.Text.Ascii

/-!
# Text and its UTF-8 bytes

Any text reads back from its bytes. They are as many as its characters just where the text is ASCII;
any other text has more bytes than characters.
-/

namespace BearerSession.Text.Utf8

variable {c : Char} {s : List Char}

/-- A byte that continues a character carries six bits of it. -/
theorem continues_ofNat {n : Nat} (h : n < 0x40) : continues (UInt8.ofNat (n + 0x80)) = true := by
  have hnat := toNat_ofNat_of_lt (n := n + 0x80) (by omega)
  rw [continues, Bool.and_eq_true, decide_eq_true_eq, decide_eq_true_eq]
  omega

theorem payload_ofNat {n : Nat} (h : n < 0x40) : payload (UInt8.ofNat (n + 0x80)) = n := by
  rw [payload, toNat_ofNat_of_lt (by omega)]
  omega

/-- The character that stands before other bytes is read, and then the other bytes. -/
theorem decodeFrom_utf8EncodeChar (c : Char) (position : Nat) (rest : List UInt8) :
    ∃ next, decodeFrom position (String.utf8EncodeChar c ++ rest) =
      (decodeFrom next rest).map (c :: ·) := by
  have hvalid : c.toNat < 0xD800 ∨ 0xDFFF < c.toNat ∧ c.toNat < 0x110000 := c.valid
  have hprepend {n : Nat} (hn : n = c.toNat) (r : Except Fault (List Char)) :
      prepend n r = r.map (c :: ·) := by
    rw [prepend, hn, Char.ofNat_toNat]
  unfold String.utf8EncodeChar
  extract_lets v
  have hv : v = c.toNat := rfl
  clear_value v
  subst hv
  split_ifs with h1 h2 h3
  · refine ⟨position + 1, ?_⟩
    have hlead := toNat_ofNat_of_lt (n := c.toNat) (by omega)
    rw [List.singleton_append, decodeFrom.eq_def]
    simp only [hlead, Nat.lt_succ_of_le h1, if_true]
    exact hprepend rfl _
  · refine ⟨position + 2, ?_⟩
    have hlead := toNat_ofNat_of_lt (n := c.toNat / 64 % 32 + 192) (by omega)
    have hlast : c.toNat % 64 < 0x40 := Nat.mod_lt _ (by decide)
    rw [List.cons_append, List.singleton_append, decodeFrom.eq_def]
    simp only [hlead, continues_ofNat hlast, payload_ofNat hlast, if_true]
    rw [if_neg (by omega), if_neg (by omega), if_pos (by omega)]
    exact hprepend (by omega) _
  · refine ⟨position + 3, ?_⟩
    have hlead := toNat_ofNat_of_lt (n := c.toNat / 4096 % 16 + 224) (by omega)
    have hmiddle : c.toNat / 64 % 64 < 0x40 := Nat.mod_lt _ (by decide)
    have hlast : c.toNat % 64 < 0x40 := Nat.mod_lt _ (by decide)
    have hsecond : second3 (UInt8.ofNat (c.toNat / 4096 % 16 + 224))
        (UInt8.ofNat (c.toNat / 64 % 64 + 128)) = true := by
      rw [second3, continues_ofNat hmiddle, Bool.true_and, hlead,
        toNat_ofNat_of_lt (n := c.toNat / 64 % 64 + 128) (by omega)]
      split <;> simp <;> omega
    rw [List.cons_append, List.cons_append, List.singleton_append, decodeFrom.eq_def]
    simp only [hlead, hsecond, continues_ofNat hlast, payload_ofNat hmiddle, payload_ofNat hlast,
      Bool.not_true, Bool.false_eq_true, if_false]
    rw [if_neg (by omega), if_neg (by omega), if_neg (by omega), if_pos (by omega)]
    exact hprepend (by omega) _
  · refine ⟨position + 4, ?_⟩
    have hlead := toNat_ofNat_of_lt (n := c.toNat / 262144 % 8 + 240) (by omega)
    have hsecond : c.toNat / 4096 % 64 < 0x40 := Nat.mod_lt _ (by decide)
    have hthird : c.toNat / 64 % 64 < 0x40 := Nat.mod_lt _ (by decide)
    have hlast : c.toNat % 64 < 0x40 := Nat.mod_lt _ (by decide)
    have hafter : second4 (UInt8.ofNat (c.toNat / 262144 % 8 + 240))
        (UInt8.ofNat (c.toNat / 4096 % 64 + 128)) = true := by
      rw [second4, continues_ofNat hsecond, Bool.true_and, hlead,
        toNat_ofNat_of_lt (n := c.toNat / 4096 % 64 + 128) (by omega)]
      split <;> simp <;> omega
    rw [List.cons_append, List.cons_append, List.cons_append, List.singleton_append,
      decodeFrom.eq_def]
    simp only [hlead, hafter, continues_ofNat hthird, continues_ofNat hlast, payload_ofNat hsecond,
      payload_ofNat hthird, payload_ofNat hlast, Bool.not_true, Bool.false_eq_true, if_false]
    rw [if_neg (by omega), if_neg (by omega), if_neg (by omega), if_neg (by omega)]
    exact hprepend (by omega) _

/-- Any text reads back from its bytes. -/
theorem decode_encode (s : List Char) : decode (encode s) = .ok s := by
  have hfrom (position : Nat) : decodeFrom position (encode s) = .ok s := by
    induction s generalizing position with
    | nil => rfl
    | cons c rest ih =>
      rw [encode, List.flatMap_cons]
      obtain ⟨next, hnext⟩ := decodeFrom_utf8EncodeChar c position (encode rest)
      rw [← encode, hnext, ih]
      rfl
  exact hfrom 0

/-- A character that is not ASCII has several bytes, none of which is ASCII. -/
theorem le_of_mem_utf8EncodeChar (h : 0x80 ≤ c.toNat) :
    1 < (String.utf8EncodeChar c).length ∧ ∀ b ∈ String.utf8EncodeChar c, 0x80 ≤ b.toNat := by
  unfold String.utf8EncodeChar
  extract_lets v
  have hv : v = c.toNat := rfl
  clear_value v
  subst hv
  split_ifs with h1 h2 h3
  · omega
  all_goals
    simp only [List.length_cons, List.length_nil, List.forall_mem_cons, List.not_mem_nil,
      false_implies, implies_true, and_true, UInt8.toNat_ofNat']
    omega

/-- A text has at least as many bytes as characters. -/
theorem length_le_length_encode (s : List Char) : s.length ≤ (encode s).length := by
  induction s with
  | nil => exact Nat.le_refl 0
  | cons c rest ih =>
    have hchar : 1 ≤ (String.utf8EncodeChar c).length := by
      rw [String.length_utf8EncodeChar]
      exact c.utf8Size_pos
    rw [encode] at ih ⊢
    rw [List.length_cons, List.flatMap_cons, List.length_append]
    omega

/-- Where it is not ASCII it has more of them, and one of them is not ASCII either. -/
theorem length_lt_length_encode (hc : c ∈ s) (h : 0x80 ≤ c.toNat) :
    s.length < (encode s).length ∧ ∃ b ∈ encode s, 0x80 ≤ b.toNat := by
  obtain ⟨before, after, rfl⟩ := List.append_of_mem hc
  obtain ⟨hlong, hbytes⟩ := le_of_mem_utf8EncodeChar h
  have hbefore := length_le_length_encode before
  have hafter := length_le_length_encode after
  rw [encode] at hbefore hafter ⊢
  rw [List.flatMap_append, List.flatMap_cons]
  constructor
  · simp only [List.length_append, List.length_cons]
    omega
  · obtain ⟨b, hb⟩ := List.exists_mem_of_length_pos (Nat.lt_trans Nat.one_pos hlong)
    exact ⟨b, by simp [hb], hbytes b hb⟩

end BearerSession.Text.Utf8
