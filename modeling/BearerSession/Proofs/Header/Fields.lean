import BearerSession.Header.Fields
import BearerSession.Proofs.Text.Ascii

/-!
# ASCII fields

Fields whose names and values are ASCII texts are read as ASCII, so each name and each value comes
back as it was given, and a name is looked up letter by letter without regard to case.
-/

namespace BearerSession.Fields

/-- The bytes of an ASCII text. -/
def bytes (s : String) : List UInt8 := s.toList.map fun c => UInt8.ofNat c.toNat

/-- Pairs of texts as pairs of values. -/
def texts (pairs : List (String × String)) : List (Value × Value) :=
  pairs.map fun (name, value) => (.text name, .text value)

/-- The fields of pairs of ASCII texts, before they are read. -/
def ofTexts (pairs : List (String × String)) : Fields :=
  ⟨pairs.map fun (name, value) => (bytes name, bytes value), none⟩

variable {s t : String} {pairs : List (String × String)}

/-- The characters of an ASCII text. -/
theorem toNat_lt_of_isAscii (h : Text.isAscii s) : ∀ c ∈ s.toList, c.toNat < 0x80 := by
  simpa [Text.isAscii] using h

/-- Each character has its byte. -/
theorem encode_eq_ok (h : Text.isAscii s) : FieldEncoding.ascii.encode s = .ok (bytes s) := by
  simp only [FieldEncoding.encode, FieldEncoding.encode?, h, if_true,
    Text.Utf8.encode_of_ascii (toNat_lt_of_isAscii h), bytes]

/-- The bytes of an ASCII text are those of ASCII. -/
theorem all_bytes_lt (h : Text.isAscii s) : ∀ n ∈ bytes s, n.toNat < 128 := by
  intro n hn
  obtain ⟨c, hc, rfl⟩ := List.mem_map.mp hn
  have hlt := toNat_lt_of_isAscii h c hc
  rwa [Text.Utf8.toNat_ofNat_of_ascii hlt]

/-- Bytes made of the numbers of characters are read as these characters. -/
theorem latinText_map_ofNat (h : ∀ c ∈ s.toList, c.toNat < 256) :
    FieldEncoding.latinText (s.toList.map fun c => UInt8.ofNat c.toNat) = s := by
  have hchar : ∀ c ∈ s.toList, Char.ofNat (UInt8.ofNat c.toNat).toNat = c := fun c hc => by
    rw [Text.Utf8.toNat_ofNat_of_lt (h c hc), Char.ofNat_toNat]
  have hmap : (s.toList.map fun c => UInt8.ofNat c.toNat).map (fun n => Char.ofNat n.toNat) =
      s.toList := by
    rw [List.map_map]
    exact (List.map_congr_left (g := id) hchar).trans (List.map_id _)
  rw [FieldEncoding.latinText, hmap, String.ofList_toList]

/-- So are those of an ASCII text. -/
theorem latinText_bytes (h : Text.isAscii s) : FieldEncoding.latinText (bytes s) = s :=
  latinText_map_ofNat fun c hc => Nat.lt_trans (toNat_lt_of_isAscii h c hc) (by decide)

/-- The bytes of an ASCII text are read as the text. -/
theorem decode?_bytes (h : Text.isAscii s) : FieldEncoding.ascii.decode? (bytes s) = some s := by
  have hall : ((bytes s).all fun n => n.toNat < 128) = true := by
    simpa using all_bytes_lt h
  simp only [FieldEncoding.decode?, hall, if_true, latinText_bytes h]

/-- A small letter by its byte. -/
theorem lower_byte {n : Nat} (h : n < 128) :
    (if 0x41 ≤ (UInt8.ofNat n).toNat ∧ (UInt8.ofNat n).toNat ≤ 0x5A then UInt8.ofNat n + 0x20
      else UInt8.ofNat n) = UInt8.ofNat (Char.ofNat n).toLower.toNat := by
  have hall : ∀ n < 128,
      (if 0x41 ≤ (UInt8.ofNat n).toNat ∧ (UInt8.ofNat n).toNat ≤ 0x5A then UInt8.ofNat n + 0x20
        else UInt8.ofNat n) = UInt8.ofNat (Char.ofNat n).toLower.toNat := by decide
  exact hall n h

/-- A name in small letters, by its bytes. -/
theorem lowerName_bytes (h : Text.isAscii s) :
    lowerName (bytes s) = bytes (String.ofList (s.toList.map Char.toLower)) := by
  rw [lowerName, bytes, bytes, String.toList_ofList, List.map_map, List.map_map]
  refine List.map_congr_left fun c hc => ?_
  have hlower := lower_byte (toNat_lt_of_isAscii h c hc)
  rwa [Char.ofNat_toNat] at hlower

/-- A small letter of ASCII is ASCII. -/
theorem isAscii_lower (h : Text.isAscii s) :
    Text.isAscii (String.ofList (s.toList.map Char.toLower)) := by
  have hall : ∀ n < 128, (Char.ofNat n).toLower.toNat < 128 := by decide
  simp only [Text.isAscii, String.toList_ofList, List.all_map, List.all_eq_true,
    Function.comp_apply, decide_eq_true_eq]
  intro c hc
  have hlower := hall c.toNat (toNat_lt_of_isAscii h c hc)
  rwa [Char.ofNat_toNat] at hlower

/-- ASCII texts are told apart by their bytes. -/
theorem bytes_inj (hs : Text.isAscii s) (ht : Text.isAscii t) : bytes s = bytes t ↔ s = t := by
  constructor
  · intro h
    rw [← latinText_bytes hs, h, latinText_bytes ht]
  · rintro rfl
    rfl

/-- The lower case of an ASCII text. -/
theorem lower_eq (h : Text.isAscii s) :
    Text.lower s = String.ofList (s.toList.map Char.toLower) := by
  rw [Text.lower, Text.lowerAfter_ascii (toNat_lt_of_isAscii h)]

/-- Whether all names and values are ASCII. -/
def AllAscii (pairs : List (String × String)) : Prop :=
  ∀ p ∈ pairs, Text.isAscii p.1 ∧ Text.isAscii p.2

/-- Fields are made of any ASCII texts. -/
theorem ofPairs_texts (h : AllAscii pairs) : ofPairs (texts pairs) = .ok (ofTexts pairs) := by
  have hitems : (texts pairs).mapM itemOf = .ok (ofTexts pairs).items := by
    induction pairs with
    | nil => rfl
    | cons p rest ih =>
      obtain ⟨hname, hvalue⟩ := h p List.mem_cons_self
      have hrest := ih fun q hq => h q (List.mem_cons_of_mem p hq)
      rw [texts] at hrest ⊢
      simp only [List.map_cons, List.mapM_cons, itemOf, bytesOf, encode_eq_ok hname,
        encode_eq_ok hvalue, bind, Except.bind, hrest]
      rfl
  simp only [ofPairs, hitems, bind, Except.bind]
  rfl

/-- They are read as ASCII. -/
theorem encoding_ofTexts (h : AllAscii pairs) : (ofTexts pairs).encoding = .ascii := by
  have hall : (((ofTexts pairs).items.flatMap fun item => [item.1, item.2]).all fun b =>
      (FieldEncoding.ascii.decode? b).isSome) = true := by
    rw [List.all_eq_true]
    intro b hb
    simp only [ofTexts, List.flatMap_map, List.mem_flatMap, List.mem_cons, List.not_mem_nil,
      or_false] at hb
    obtain ⟨p, hp, rfl | rfl⟩ := hb
    · rw [decode?_bytes (h p hp).1]
      rfl
    · rw [decode?_bytes (h p hp).2]
      rfl
  simp only [encoding, ofTexts, Option.getD_none, FieldEncoding.ofBytes]
  exact if_pos hall

/-- The values of a name are those of the pairs with this name in any case, in order. -/
theorem values_ofTexts (h : AllAscii pairs) {name : String} (hname : Text.isAscii name) :
    (ofTexts pairs).values name =
      .ok ((pairs.filter fun p => Text.lower p.1 = Text.lower name).map Prod.snd) := by
  have hkey : FieldEncoding.ascii.encode (Text.lower name) = .ok (bytes (Text.lower name)) :=
    encode_eq_ok (lower_eq hname ▸ isAscii_lower hname)
  have hfound : ∀ p ∈ pairs,
      (lowerName (bytes p.1) = bytes (Text.lower name) ↔ Text.lower p.1 = Text.lower name) := by
    intro p hp
    have hp := (h p hp).1
    rw [lowerName_bytes hp, ← lower_eq hp]
    exact bytes_inj (lower_eq hp ▸ isAscii_lower hp) (lower_eq hname ▸ isAscii_lower hname)
  have hitems : (((ofTexts pairs).items.filter fun item =>
        lowerName item.1 = bytes (Text.lower name)).map fun item => (ofTexts pairs).text item.2) =
      (pairs.filter fun p => Text.lower p.1 = Text.lower name).map Prod.snd := by
    rw [← List.filter_congr fun p hp => decide_eq_decide.mpr (hfound p hp),
      show (ofTexts pairs).items = pairs.map fun p => (bytes p.1, bytes p.2) from rfl,
      List.filter_map, List.map_map]
    refine List.map_congr_left fun p hp => ?_
    have hvalue := (h p (List.mem_filter.mp hp).1).2
    simp only [Function.comp_apply, text, encoding_ofTexts h, decode?_bytes hvalue,
      Option.getD_some]
  simp only [values, encoding_ofTexts h, hkey, bind, Except.bind]
  exact congrArg Except.ok hitems

end BearerSession.Fields
