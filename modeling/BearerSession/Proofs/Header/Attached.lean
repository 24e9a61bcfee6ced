import BearerSession.Proofs.Header.Request
import BearerSession.Proofs.Text.Utf8
import BearerSession.Proofs.Value.Entries

/-!
# Attached headers

The authorization header is attached to a map of headers or to the fields of a request. A map is
written under the name as it is spelled, and read without regard to case: what is found is the first
entry in any spelling. In fields every spelling is replaced, and the header is written in UTF-8
unless the encoding is settled, but read in the first encoding that fits all fields together.
-/

namespace BearerSession

open Header (authorizationName)

namespace Value

variable {α : Type} {key : String} {value : α} {P : String → Bool}

/-- Writing a key among others of its kind is writing it among these. -/
theorem filter_insertEntry (h : P key = true) (entries : List (String × α)) :
    (insertEntry key value entries).filter (fun e => P e.1) =
      insertEntry key value (entries.filter fun e => P e.1) := by
  induction entries with
  | nil => simp [insertEntry, h]
  | cons e rest ih =>
    unfold insertEntry
    by_cases hk : e.1 = key
    · simp [hk, h]
    · cases hP : P e.1 with
      | true => simp [hk, hP, ih]
      | false =>
        simp only [hk, if_false, hP, List.filter_cons, Bool.false_eq_true, ih]
        cases rest.filter fun e => P e.1 <;> rfl

/-- Writing a key leaves those of another kind alone. -/
theorem filter_insertEntry_of_neg (h : P key = false) (entries : List (String × α)) :
    (insertEntry key value entries).filter (fun e => P e.1) =
      entries.filter fun e => P e.1 := by
  induction entries with
  | nil => simp [insertEntry, h]
  | cons e rest ih =>
    unfold insertEntry
    by_cases hk : e.1 = key
    · simp [hk, h]
    · simp [hk, List.filter_cons, ih]

/-- Of a written map, the first entry of the kind of its key is the written one, unless another key
of this kind was the first one before. -/
theorem find?_kind_insertEntry (h : P key = true) (entries : List (String × α)) :
    (insertEntry key value entries).find? (fun e => P e.1) =
      some (((entries.find? fun e => P e.1).filter fun e => e.1 ≠ key).getD (key, value)) := by
  induction entries with
  | nil => simp [insertEntry, h]
  | cons e rest ih =>
    unfold insertEntry
    by_cases hk : e.1 = key
    · simp [hk, h, Option.filter]
    · cases hP : P e.1 with
      | true => simp [hk, hP, Option.filter]
      | false => simp [hk, hP, ih]

/-- A map that is all of one kind has one entry after a key has been written just where it had no
other key. -/
theorem length_insertEntry_eq_one_iff {entries : List (String × α)} (h : Keyed entries) :
    (insertEntry key value entries).length = 1 ↔ ∀ e ∈ entries, e.1 = key := by
  cases entries with
  | nil => simp [insertEntry]
  | cons e rest =>
    obtain ⟨hnew, -⟩ := List.nodup_cons.mp h
    unfold insertEntry
    by_cases hk : e.1 = key
    · have hnone : (∀ f ∈ rest, f.1 = key) ↔ rest = [] := by
        refine ⟨fun hall => List.eq_nil_iff_forall_not_mem.mpr fun f hf => hnew ?_, ?_⟩
        · exact List.mem_map.mpr ⟨f, hf, (hall f hf).trans hk.symm⟩
        · rintro rfl f hf
          exact absurd hf List.not_mem_nil
      rw [if_pos hk, List.forall_mem_cons, hnone]
      simp [hk]
    · have hsome : 0 < (insertEntry key value rest).length := by
        rw [← List.length_map (f := Prod.fst), keys_insertEntry]
        split
        · next hmem => exact List.length_pos_of_mem hmem
        · simp
      simp [hk, Nat.ne_of_gt hsome]

/-- Reading the values of a map in another way does not depend on when a key is written. -/
theorem map_insertEntry {β : Type} (f : α → β) (entries : List (String × α)) :
    insertEntry key (f value) (entries.map fun e => (e.1, f e.2)) =
      (insertEntry key value entries).map fun e => (e.1, f e.2) := by
  induction entries with
  | nil => rfl
  | cons e rest ih =>
    rw [List.map_cons, insertEntry, insertEntry]
    split
    · rfl
    · rw [ih, List.map_cons]

end Value

namespace FieldEncoding

variable {s : String} {b : List UInt8}

/-- A text reads back from its form in each encoding. -/
theorem decode?_of_encode? {encoding : FieldEncoding} (h : encoding.encode? s = some b) :
    encoding.decode? b = some s := by
  cases encoding with
  | ascii =>
    obtain ⟨hs, hb⟩ := Option.ite_none_right_eq_some.mp h
    obtain rfl := Option.some.inj hb
    rw [Text.Utf8.encode_of_ascii (Fields.toNat_lt_of_isAscii hs)]
    exact Fields.decode?_bytes hs
  | utf8 =>
    obtain rfl := Option.some.inj h
    simp [decode?, utf8Text?, Text.Utf8.decode_encode]
  | latin =>
    obtain ⟨hs, hb⟩ := Option.ite_none_right_eq_some.mp h
    obtain rfl := Option.some.inj hb
    have hlt := List.all_eq_true.mp hs
    exact congrArg some (Fields.latinText_map_ofNat fun c hc => of_decide_eq_true (hlt c hc))

/-- The bytes of an ASCII text are read as this text in every encoding. -/
theorem decode?_encode_of_isAscii (encoding : FieldEncoding) (h : Text.isAscii s) :
    encoding.decode? (Text.Utf8.encode s.toList) = some s := by
  have hbytes := Text.Utf8.encode_of_ascii (Fields.toNat_lt_of_isAscii h)
  cases encoding with
  | ascii => exact decode?_of_encode? (if_pos h)
  | utf8 => exact decode?_of_encode? rfl
  | latin =>
    rw [hbytes]
    exact congrArg some (Fields.latinText_bytes h)

/-- A text that is not ASCII has a character that is not. -/
theorem exists_of_not_isAscii (h : Text.isAscii s = false) : ∃ c ∈ s.toList, 0x80 ≤ c.toNat := by
  simpa [Text.isAscii] using h

/-- The bytes of any other text are not read as this text by the numbers of its characters. -/
theorem latinText_encode_ne (h : Text.isAscii s = false) :
    latinText (Text.Utf8.encode s.toList) ≠ s := by
  obtain ⟨c, hc, hbig⟩ := exists_of_not_isAscii h
  have hlong := (Text.Utf8.length_lt_length_encode hc hbig).1
  intro heq
  have hlength := congrArg (fun t : String => t.toList.length) heq
  simp only [latinText, String.toList_ofList, List.length_map] at hlength
  omega

/-- Bytes among which such a text stands are read as UTF-8 if all of them are, and else by the
numbers of the characters. -/
theorem ofBytes_of_not_isAscii {all : List (List UInt8)} (h : Text.isAscii s = false)
    (hmem : Text.Utf8.encode s.toList ∈ all) :
    ofBytes all = if all.all fun b => (utf8.decode? b).isSome then .utf8 else .latin := by
  obtain ⟨c, hc, hbig⟩ := exists_of_not_isAscii h
  obtain ⟨n, hn, hbyte⟩ := (Text.Utf8.length_lt_length_encode hc hbig).2
  have hnot : (ascii.decode? (Text.Utf8.encode s.toList)).isSome = false := by
    have hall : ((Text.Utf8.encode s.toList).all fun n => n.toNat < 128) = false :=
      List.all_eq_false.mpr ⟨n, hn, by simpa using hbyte⟩
    simp [decode?, hall]
  rw [ofBytes, if_neg]
  exact fun hall => by simpa [hnot] using List.all_eq_true.mp hall _ hmem

end FieldEncoding

namespace Fields

variable {f : Fields} {b : List UInt8} {header : String}

/-- Whether the name and the value of a field are UTF-8. -/
def isUtf8 (item : List UInt8 × List UInt8) : Bool :=
  (FieldEncoding.utf8.decode? item.1).isSome && (FieldEncoding.utf8.decode? item.2).isSome

/-- Whether a text that is written into fields comes back garbled: their encoding is still open, the
text is not ASCII, and so written in UTF-8, but the other fields cannot be read as UTF-8. -/
def garbles (f : Fields) (text : String) : Bool :=
  f.settled.isNone && !Text.isAscii text && !f.others.all isUtf8

/-- The name of the header is looked up by the same bytes in every encoding. -/
theorem encode_lower_authorizationName (encoding : FieldEncoding) :
    encoding.encode (Text.lower Header.authorizationName) = .ok authorizationKey := by
  cases encoding <;> rfl

/-- Of fields with one authorization header, its value is what is found. -/
theorem firstValue_authorization (h : f.authorizations = [b]) :
    (Headers.fields f).firstValue Header.authorizationName = .ok (.text (f.text b)) := by
  have hvalues : f.values Header.authorizationName = .ok [f.text b] := by
    rw [values, encode_lower_authorizationName]
    refine congrArg Except.ok ?_
    have htexts := congrArg (List.map f.text) h
    rwa [authorizations, List.map_map] at htexts
  rw [Headers.firstValue, hvalues]
  rfl

/-- The header is one of the fields that bear it. -/
theorem mem_items_bearing (f : Fields) (b : List UInt8) :
    (bytes Header.authorizationName, b) ∈ (f.bearing b).items := by
  have hmem := List.mem_singleton_self (bytes Header.authorizationName, b)
  rw [← filter_items_bearing f b] at hmem
  exact (List.mem_filter.mp hmem).1

/-- Names and values can all be read as UTF-8 where each field can. -/
theorem all_flatMap_isUtf8 (items : List (List UInt8 × List UInt8)) :
    ((items.flatMap fun (k, v) => [k, v]).all fun b => (FieldEncoding.utf8.decode? b).isSome) =
      items.all isUtf8 := by
  rw [List.all_flatMap]
  exact congrArg (items.all ·) (funext fun item => by simp [isUtf8])

/-- The name of the header is UTF-8, so fields with a header that is UTF-8 are if the others are. -/
theorem all_isUtf8_bearing (hb : (FieldEncoding.utf8.decode? b).isSome = true) :
    (f.bearing b).items.all isUtf8 = f.others.all isUtf8 := by
  have hascii : Text.isAscii Header.authorizationName = true := by decide
  have hname := FieldEncoding.decode?_encode_of_isAscii .utf8 hascii
  rw [Text.Utf8.encode_of_ascii (toNat_lt_of_isAscii hascii)] at hname
  have hitem : isUtf8 (bytes Header.authorizationName, b) = true := by
    rw [isUtf8, hb, Bool.and_true, bytes, hname]
    rfl
  rw [← others_bearing f b, Bool.eq_iff_iff, List.all_eq_true, List.all_eq_true]
  refine ⟨fun hall item hi => hall item (List.mem_filter.mp hi).1, fun hall item hi => ?_⟩
  by_cases hk : lowerName item.1 = authorizationKey
  · have hmem : item ∈ [(bytes Header.authorizationName, b)] := by
      rw [← filter_items_bearing f b, List.mem_filter]
      exact ⟨hi, decide_eq_true hk⟩
    exact List.mem_singleton.mp hmem ▸ hitem
  · refine hall item ?_
    rw [others, List.mem_filter]
    exact ⟨hi, decide_eq_true hk⟩

/-- What a header that is set is read as, together with the other fields. -/
def readAs (f : Fields) (header : String) : String :=
  if f.garbles header then FieldEncoding.latinText (Text.Utf8.encode header.toList) else header

/-- A header is read as itself just where it is not garbled. -/
theorem readAs_eq_iff : f.readAs header = header ↔ f.garbles header = false := by
  unfold readAs
  cases hg : f.garbles header with
  | false => simp
  | true =>
    have hascii : Text.isAscii header = false := by
      simp only [garbles, Bool.and_eq_true, Bool.not_eq_true'] at hg
      exact hg.1.2
    simpa using FieldEncoding.latinText_encode_ne hascii

/-- The header is read from its form in the encoding of all fields. -/
theorem text_bearing (hb : f.form? header = some b) : (f.bearing b).text b = f.readAs header := by
  unfold text encoding readAs garbles bearing
  cases hsettled : f.settled with
  | some encoding =>
    rw [form?, hsettled] at hb
    have hread : encoding.decode? b = some header := FieldEncoding.decode?_of_encode? hb
    simp [hread]
  | none =>
    rw [form?, hsettled] at hb
    obtain rfl := Option.some.inj hb
    cases hascii : Text.isAscii header with
    | true => simp [FieldEncoding.decode?_encode_of_isAscii _ hascii]
    | false =>
      have hread : FieldEncoding.utf8.decode? (Text.Utf8.encode header.toList) = some header :=
        FieldEncoding.decode?_of_encode? rfl
      have hall := all_isUtf8_bearing (f := f) (Option.isSome_iff_exists.mpr ⟨_, hread⟩)
      have hmem : Text.Utf8.encode header.toList ∈
          (f.bearing (Text.Utf8.encode header.toList)).items.flatMap fun (k, v) => [k, v] :=
        List.mem_flatMap.mpr ⟨_, mem_items_bearing f _, by simp⟩
      have hencoding := FieldEncoding.ofBytes_of_not_isAscii hascii hmem
      rw [all_flatMap_isUtf8, hall, bearing] at hencoding
      simp only [Option.getD_none, hencoding, Option.isNone_none, Bool.true_and, Bool.not_false]
      cases f.others.all isUtf8 with
      | true => exact congrArg (Option.getD · "") hread
      | false => rfl

end Fields

namespace Headers

/-- The entries of headers, in order. -/
def entries : Headers → List (Value × Value)
  | .map entries | .message entries => entries
  | .fields f => f.items.map fun (k, v) => (.bytes k, .bytes v)
  | .none | .unusable _ => []

/-- Whether a key is the name of the authorization header in some spelling. -/
def namesAuthorization : Value → Bool
  | .bytes b => Fields.lowerName b = Fields.authorizationKey
  | k => Text.lower k.display = Text.lower authorizationName

/-- The entries under this name. -/
def authorizations (h : Headers) : List (Value × Value) :=
  h.entries.filter fun e => namesAuthorization e.1

/-- The entries under other names. -/
def others (h : Headers) : List (Value × Value) :=
  h.entries.filter fun e => !namesAuthorization e.1

end Headers

namespace HeaderTarget

/-- The headers of a target. -/
def headers : HeaderTarget → Headers
  | .map entries => .map (entries.map fun (k, v) => (.text k, v))
  | .request f => .fields f
  | .other _ => .none

/-- What is to be told of a target to which a header has been attached. -/
structure Attached (before : HeaderTarget) (header : String) (after : HeaderTarget) : Prop where
  /-- The header is what is found under its name. -/
  found : after.headers.firstValue authorizationName = .ok (.text header)
  /-- Nothing else stands under its name in any spelling. -/
  alone : after.headers.authorizations.length = 1
  /-- The headers of other names are the same. -/
  others : after.headers.others = before.headers.others

end HeaderTarget

/-- What carries headers: a map from names, each of which it has once, or the fields of a request.
-/
inductive Carrier where
  /-- A map of texts. -/
  | texts (pairs : List (String × String)) (keyed : Value.Keyed pairs)
  /-- The fields of a request. -/
  | request (f : Fields)

namespace Carrier

open HeaderTarget (Attached)

/-- Whether a name is the one of the authorization header in some spelling. -/
def spells (name : String) : Bool := Text.lower name = Text.lower authorizationName

/-- A carrier as what a header is set on. -/
def target : Carrier → HeaderTarget
  | .texts pairs _ => .map (pairs.map fun (k, v) => (k, .text v))
  | .request f => .request f

/-- Whether a header can be set. -/
def takes (header : String) : Carrier → Bool
  | .texts .. => true
  | .request f => f.takes header

/-- What is found once a header is set. In a map it is the value of the first spelling of the name,
which is the header only under the name itself. -/
def shown (header : String) : Carrier → String
  | .texts pairs _ =>
    match pairs.find? fun e => spells e.1 with
    | some (k, v) => if k = authorizationName then header else v
    | none => header
  | .request f => f.readAs header

/-- Whether nothing comes between a header and its reader: no other spelling of its name in a map,
no fields that are read in another encoding than the header is written. -/
def Unobscured (header : String) : Carrier → Prop
  | .texts pairs _ => ∀ e ∈ pairs, spells e.1 → e.1 = authorizationName
  | .request f => f.garbles header = false

variable {pairs : List (String × String)}

/-- Where nothing comes between, the header is what is found. -/
theorem shown_of_unobscured {c : Carrier} {header : String} (h : c.Unobscured header) :
    c.shown header = header := by
  cases c with
  | texts pairs keyed =>
    rw [shown]
    split
    · next heq =>
      have hspells := List.find?_some heq
      exact if_pos (h _ (List.mem_of_find?_eq_some heq) hspells)
    · rfl
  | request f => exact Fields.readAs_eq_iff.mpr h

section Texts

variable (keyed : Value.Keyed pairs) (header : String)

/-- The entries of a map of texts whose names are of a kind. -/
theorem filter_entries_texts (Q : Value → Bool) :
    ((texts pairs keyed).target.headers.entries.filter fun e => Q e.1) =
      (pairs.filter fun e => Q (.text e.1)).map fun (k, v) => (.text k, .text v) := by
  simp only [target, HeaderTarget.headers, Headers.entries, List.map_map, List.filter_map]
  rfl

/-- Under its name in any spelling. -/
theorem authorizations_texts :
    (texts pairs keyed).target.headers.authorizations =
      (pairs.filter fun e => spells e.1).map fun (k, v) => (.text k, .text v) :=
  filter_entries_texts keyed Headers.namesAuthorization

/-- Under other names. -/
theorem others_texts :
    (texts pairs keyed).target.headers.others =
      (pairs.filter fun e => !spells e.1).map fun (k, v) => (.text k, .text v) :=
  filter_entries_texts keyed fun k => !Headers.namesAuthorization k

/-- What is found in a map of texts is the first entry under the name in any spelling. -/
theorem firstValue_texts {e : String × String}
    (h : (pairs.find? fun e => spells e.1) = some e) :
    (texts pairs keyed).target.headers.firstValue authorizationName = .ok (.text e.2) := by
  have hfield : Headers.firstField? authorizationName
      ((pairs.map fun e => (e.1, Value.text e.2)).map fun e => (.text e.1, e.2)) =
        some (.text e.1, .text e.2) := by
    rw [Headers.firstField?, List.map_map, List.find?_map]
    exact congrArg (Option.map _) h
  simp only [target, HeaderTarget.headers, Headers.firstValue, hfield, Headers.fieldValue]

/-- The map with the header. -/
def withHeader : Carrier :=
  texts (Value.insertEntry authorizationName header pairs)
    (keyed.insertEntry authorizationName header)

/-- A header is written under its name. -/
theorem authorize_texts :
    (texts pairs keyed).target.authorize (some header) = .ok (withHeader keyed header).target :=
  congrArg (fun entries => Except.ok (HeaderTarget.map entries))
    (Value.map_insertEntry Value.text pairs)

/-- The name of the header spells itself. -/
theorem spells_authorizationName : spells authorizationName = true := rfl

theorem others_withHeader :
    (withHeader keyed header).target.headers.others =
      (texts pairs keyed).target.headers.others := by
  rw [withHeader, others_texts, others_texts,
    Value.filter_insertEntry_of_neg (P := fun k => !spells k) rfl]

theorem firstValue_withHeader :
    (withHeader keyed header).target.headers.firstValue authorizationName =
      .ok (.text ((texts pairs keyed).shown header)) := by
  rw [withHeader, firstValue_texts _ (Value.find?_kind_insertEntry spells_authorizationName pairs),
    shown]
  cases pairs.find? fun e => spells e.1 with
  | none => rfl
  | some e => by_cases hk : e.1 = authorizationName <;> simp [hk, Option.filter]

theorem length_authorizations_withHeader :
    (withHeader keyed header).target.headers.authorizations.length = 1 ↔
      (texts pairs keyed).Unobscured header := by
  rw [withHeader, authorizations_texts, List.length_map,
    Value.filter_insertEntry spells_authorizationName, Value.length_insertEntry_eq_one_iff]
  · simp [Unobscured]
  · exact keyed.sublist (List.filter_sublist.map _)

end Texts

section Request

variable {f : Fields} {header : String} {b : List UInt8}

theorem others_fields (f : Fields) :
    (Headers.fields f).others = f.others.map fun (k, v) => (.bytes k, .bytes v) := by
  simp only [Headers.others, Headers.entries, List.filter_map, Fields.others]
  refine congrArg _ (List.filter_congr fun item _ => ?_)
  simp [Headers.namesAuthorization]

theorem length_authorizations_fields (f : Fields) :
    (Headers.fields f).authorizations.length = f.authorizations.length := by
  simp only [Headers.authorizations, Headers.entries, List.filter_map, Fields.authorizations,
    List.length_map]
  rfl

end Request

/-- A header that a carrier takes is attached to it just where nothing comes between them. The
others are the same in any case, and what is found is known. Any other header raises. -/
theorem authorize_attached (c : Carrier) (header : String) :
    (c.takes header = true ∧ ∃ after : Carrier,
      c.target.authorize (some header) = .ok after.target ∧
      after.target.headers.others = c.target.headers.others ∧
      after.target.headers.firstValue authorizationName = .ok (.text (c.shown header)) ∧
      (Attached c.target header after.target ↔ c.Unobscured header)) ∨
    (c.takes header = false ∧ c.target.authorize (some header) = .error .unencodable) := by
  cases c with
  | texts pairs keyed =>
    have hothers := others_withHeader keyed header
    have hfound := firstValue_withHeader keyed header
    have halone := length_authorizations_withHeader keyed header
    refine .inl ⟨rfl, withHeader keyed header, authorize_texts keyed header, hothers, hfound,
      fun h => halone.mp h.alone, fun h => ⟨?_, halone.mpr h, hothers⟩⟩
    rw [hfound, shown_of_unobscured h]
  | request f =>
    cases htakes : f.takes header with
    | false =>
      refine .inr ⟨htakes, ?_⟩
      simp only [target, HeaderTarget.authorize, Fields.set_authorization_error htakes, Except.map]
    | true =>
      obtain ⟨b, hb⟩ := Option.isSome_iff_exists.mp htakes
      have hothers : (Headers.fields (f.bearing b)).others = (Headers.fields f).others := by
        rw [others_fields, others_fields, Fields.others_bearing]
      have hfound : (Headers.fields (f.bearing b)).firstValue authorizationName =
          .ok (.text (f.readAs header)) := by
        rw [Fields.firstValue_authorization (Fields.authorizations_bearing f b),
          Fields.text_bearing hb]
      have halone : (Headers.fields (f.bearing b)).authorizations.length = 1 := by
        rw [length_authorizations_fields, Fields.authorizations_bearing]
        rfl
      refine .inl ⟨htakes, request (f.bearing b), ?_, hothers, hfound, fun h => ?_,
        fun h => ⟨?_, halone, hothers⟩⟩
      · simp only [target, HeaderTarget.authorize, Fields.set_eq hb, Except.map]
      · exact Fields.readAs_eq_iff.mp (Value.text.inj (Except.ok.inj (hfound.symm.trans h.found)))
      · refine hfound.trans ?_
        rw [Fields.readAs_eq_iff.mpr h]

/-- Next to a header of another spelling the attached one is not found, and both are sent. -/
theorem not_attached_lowerCase :
    ∃ after, (HeaderTarget.map [("authorization", .text "old")]).authorize (some "Bearer a i") =
        .ok after ∧
      after.headers.firstValue authorizationName = .ok (.text "old") ∧
      after.headers.authorizations.length = 2 ∧
      ¬ Attached (.map [("authorization", .text "old")]) "Bearer a i" after := by
  refine ⟨_, rfl, rfl, rfl, fun h => ?_⟩
  exact absurd h.alone (by decide)

end Carrier

end BearerSession
