import BearerSession.Exchange
import BearerSession.Proofs.Header.Fields

/-!
# Requests that bear the authorization header

A header that is set on a request replaces all of its name and leaves the other fields alone. It can
be set as long as it has a form in the encoding of the fields: any text has one in fields that have
not been read, and an ASCII text has one in every encoding.
-/

namespace BearerSession

namespace Fields

variable {f g : Fields} {header : String}

/-- The name of the authorization header in small letters. -/
def authorizationKey : List UInt8 := lowerName (bytes Header.authorizationName)

/-- The values of the authorization header. -/
def authorizations (f : Fields) : List (List UInt8) :=
  (f.items.filter fun (k, _) => lowerName k = authorizationKey).map Prod.snd

/-- The fields other than the authorization header. -/
def others (f : Fields) : List (List UInt8 × List UInt8) :=
  f.items.filter fun (k, _) => lowerName k ≠ authorizationKey

/-- The form of a text that is written into fields, where there is one. -/
def form? (f : Fields) (text : String) : Option (List UInt8) :=
  (f.settled.getD .utf8).encode? text

/-- Whether a text can be written into fields. -/
def takes (f : Fields) (text : String) : Bool := (f.form? text).isSome

/-- Fields that are others with a header: without a header they have the same fields, and with one
it is their only authorization header and all other fields are the same. -/
def Bears (f g : Fields) : Option String → Prop
  | none => f.items = g.items
  | some header => f.others = g.others ∧ ∃ b, g.form? header = some b ∧ f.authorizations = [b]

/-- Fields that have not been read take any text. -/
theorem takes_of_unread (h : f.settled = none) (text : String) : f.takes text = true := by
  simp [takes, form?, h, FieldEncoding.encode?]

/-- The name of the header has the same form in every encoding. -/
theorem encode_authorizationName (encoding : FieldEncoding) :
    encoding.encode Header.authorizationName = .ok (bytes Header.authorizationName) := by
  cases encoding <;> rfl

section SetItem

variable {name key value : List UInt8}

theorem filter_ne_setItem (hname : lowerName name = key) (items : List (List UInt8 × List UInt8)) :
    (setItem name key value items).filter (fun (k, _) => lowerName k ≠ key) =
      items.filter fun (k, _) => lowerName k ≠ key := by
  induction items with
  | nil => simp [setItem, hname]
  | cons item rest ih =>
    unfold setItem
    by_cases hk : lowerName item.1 = key
    · simp [hk, hname]
    · simpa [hk] using ih

theorem filter_eq_setItem (hname : lowerName name = key) (items : List (List UInt8 × List UInt8)) :
    (setItem name key value items).filter (fun (k, _) => lowerName k = key) = [(name, value)] := by
  induction items with
  | nil => simp [setItem, hname]
  | cons item rest ih =>
    unfold setItem
    by_cases hk : lowerName item.1 = key
    · simp [hk, hname]
    · simpa [hk] using ih

end SetItem

/-- Fields with a value of the authorization header in place of all that they had. -/
def bearing (f : Fields) (b : List UInt8) : Fields :=
  { f with items := setItem (bytes Header.authorizationName) authorizationKey b f.items }

/-- A header is set in its form in the encoding of the fields. -/
theorem set_eq {b : List UInt8} (h : f.form? header = some b) :
    f.set Header.authorizationName header = .ok (f.bearing b) := by
  have hencode : (f.settled.getD .utf8).encode header = .ok b := by
    rw [form?] at h
    simp only [FieldEncoding.encode, h]
  simp only [set, encode_authorizationName, hencode, bind, Except.bind]
  rfl

theorem others_bearing (f : Fields) (b : List UInt8) : (f.bearing b).others = f.others :=
  filter_ne_setItem rfl f.items

theorem filter_items_bearing (f : Fields) (b : List UInt8) :
    ((f.bearing b).items.filter fun (k, _) => lowerName k = authorizationKey) =
      [(bytes Header.authorizationName, b)] :=
  filter_eq_setItem rfl f.items

theorem authorizations_bearing (f : Fields) (b : List UInt8) :
    (f.bearing b).authorizations = [b] :=
  congrArg (List.map Prod.snd) (filter_items_bearing f b)

/-- A header that can be set is borne by the fields from then on. -/
theorem set_authorization (h : f.takes header = true) :
    ∃ g, f.set Header.authorizationName header = .ok g ∧ g.Bears f (some header) ∧
      g.settled = f.settled := by
  obtain ⟨b, hb⟩ := Option.isSome_iff_exists.mp h
  exact ⟨f.bearing b, set_eq hb,
    ⟨others_bearing f b, b, hb, authorizations_bearing f b⟩, rfl⟩

/-- Any other header is refused. -/
theorem set_authorization_error (h : f.takes header = false) :
    f.set Header.authorizationName header = .error .unencodable := by
  have hencode : (f.settled.getD .utf8).encode header = .error .unencodable := by
    rw [takes, form?, Option.isSome_eq_false_iff, Option.isNone_iff_eq_none] at h
    simp only [FieldEncoding.encode, h]
  simp only [set, encode_authorizationName, hencode, bind, Except.bind]

end Fields

namespace Exchange

variable {fields : Fields}

/-- What is sent are the fields with the header, as they are read. -/
structure Sendable (fields : Fields) (header : Option String) (sent : Fields) : Prop where
  /-- The header is there. -/
  bears : sent.Bears fields header
  /-- The encoding is settled: it is the one that was settled before, or the one that reads all that
  is sent. -/
  settled : sent.settled = some (Fields.encoding ⟨sent.items, fields.settled⟩)

/-- Without a header, fields are sent as they are. -/
theorem prepared_none (fields : Fields) :
    ∃ sent, prepared fields none = .ok sent ∧ Sendable fields none sent :=
  ⟨fields.read, rfl, rfl, rfl⟩

/-- A header that can be set is sent. -/
theorem prepared_some {header : String} (h : fields.takes header = true) :
    ∃ sent, prepared fields (some header) = .ok sent ∧ Sendable fields (some header) sent := by
  obtain ⟨g, hset, hbears, hsettled⟩ := Fields.set_authorization h
  refine ⟨g.read, ?_, hbears, ?_⟩
  · simp only [prepared, authorized, HeaderTarget.authorize, hset, Except.map]
  · rw [← hsettled]
    rfl

/-- A header that cannot be set keeps a request from being sent. -/
theorem prepared_error {header : String} (h : fields.takes header = false) :
    prepared fields (some header) = .error .unencodable := by
  simp only [prepared, authorized, HeaderTarget.authorize, Fields.set_authorization_error h,
    Except.map]

end Exchange

/-- Whether a reply with fields is a challenge is always decided. -/
theorem Reply.isChallenge_fields (status : Int) (f : Fields) :
    ∃ b, (Reply.mk status (.fields f)).isChallenge = .ok b := by
  obtain ⟨values, hvalues⟩ : ∃ values, f.values Challenge.headerName = .ok values := by
    unfold Fields.values
    cases f.encoding <;> exact ⟨_, rfl⟩
  have hread : (Reply.mk status (.fields f)).isChallenge =
      Challenge.isChallenge (.int status) (.ofText? values.head?) := by
    change (do return .ofText? (← f.values Challenge.headerName).head?) >>=
      Challenge.isChallenge (.int status) = _
    rw [hvalues]
    rfl
  rw [hread]
  cases values.head? with
  | none => exact ⟨false, by simp [Challenge.isChallenge, Value.ofText?, Value.isKey, Value.isNull]⟩
  | some text =>
    unfold Challenge.isChallenge
    cases Challenge.isStatus (.int status) with
    | false => exact ⟨false, rfl⟩
    | true => exact ⟨_, rfl⟩

end BearerSession
