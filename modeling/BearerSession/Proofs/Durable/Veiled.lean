import BearerSession.Proofs.Credential.Alongside
import BearerSession.Proofs.Disk.Alike
import BearerSession.Proofs.Json.Reread

/-!
# Session files that differ in their tokens

Session files whose JSON objects differ at most in tokens, texts that are not empty on both sides,
go on to do so under every operation of a backend: each reads the same or a token, fails for the
same reason, and writes a file that differs in tokens alone. A temporary file that a failing disk
has cut off need not do so, but nothing is ever read from it.
-/

namespace BearerSession

/-- Whether a key is that of a token. -/
def CellName.IsTokenKey (key : String) : Prop := ∃ n ∈ CellName.tokens, n.key = key

namespace Value

variable {α β : Type} {r : String → α → α → Prop}

/-- Maps of which values that correspond are found under each key. -/
def AlikeMaps (r : String → α → α → Prop) (entries entries' : List (String × α)) : Prop :=
  ∀ key, Option.Rel (r key) (find? entries key) (find? entries' key)

namespace AlikeMaps

variable {entries entries' : List (String × α)}

/-- A map corresponds to itself. -/
theorem refl (hr : ∀ key v, r key v v) (entries : List (String × α)) :
    AlikeMaps r entries entries := by
  intro key
  cases find? entries key with
  | none => exact .none
  | some v => exact .some (hr key v)

/-- Values that correspond may be written under a key. -/
theorem insertEntry (h : AlikeMaps r entries entries') {key : String} {v v' : α}
    (hv : r key v v') :
    AlikeMaps r (insertEntry key v entries) (Value.insertEntry key v' entries') := by
  intro other
  rw [find?_insertEntry, find?_insertEntry]
  split
  · next hkey => exact .some (hkey ▸ hv)
  · exact h other

/-- A key may be erased. -/
theorem eraseEntry (h : AlikeMaps r entries entries') (key : String) :
    AlikeMaps r (eraseEntry key entries) (Value.eraseEntry key entries') := by
  intro other
  rw [find?_eraseEntry, find?_eraseEntry]
  split
  · exact .none
  · exact h other

/-- What is found under a key is there in both or in none. -/
theorem isSome_find? (h : AlikeMaps r entries entries') (key : String) :
    (find? entries key).isSome = (find? entries' key).isSome := by
  have hkey := h key
  generalize find? entries key = v at hkey ⊢
  generalize find? entries' key = v' at hkey ⊢
  cases hkey <;> rfl

end AlikeMaps

/-- Changing the values of a map changes what is found. -/
theorem find?_map_snd (f : α → β) (entries : List (String × α)) (key : String) :
    find? (entries.map fun (k, v) => (k, f v)) key = (find? entries key).map f := by
  induction entries with
  | nil => rfl
  | cons entry rest ih =>
    obtain ⟨k, v⟩ := entry
    unfold find? at ih ⊢
    by_cases hk : k = key
    · simp [hk]
    · simpa [List.find?_cons, hk] using ih

/-- Values under a key that are the same, or tokens that are not empty. -/
def Veiled (key : String) (v w : Value) : Prop :=
  v = w ∨ CellName.IsTokenKey key ∧ ∃ s t, v = .text s ∧ w = .text t ∧ s ≠ "" ∧ t ≠ ""

end Value

/-- Texts under a key that are the same, or tokens that are not empty. -/
def VeiledText (key s t : String) : Prop := s = t ∨ CellName.IsTokenKey key ∧ s ≠ "" ∧ t ≠ ""

/-- For the cell of a key these are the texts that are alike up to tokens. -/
theorem veiledText_key_iff (n : CellName) (s t : String) :
    VeiledText n.key s t ↔ Likeness.veiled.Alike n s t := by
  have htoken : CellName.IsTokenKey n.key ↔ n.governed = true := by
    cases n <;> simp [CellName.IsTokenKey, CellName.tokens, CellName.key, CellName.governed]
  rw [VeiledText, htoken]
  rfl

namespace SessionFile

open Value (AlikeMaps Keyed find?)

/-- Whether bytes are the text of a JSON object with the given entries. -/
def Reads (bytes : List UInt8) (entries : List (String × Value)) : Prop :=
  ∃ cs, Text.Utf8.decode bytes = .ok cs ∧
    Json.read (String.ofList (Text.Utf8.normalizeLineEnds cs)) = .ok (.map entries)

/-- Bytes that are the same, or texts of JSON objects that differ at most in tokens that are not
empty. -/
def Veiled (bytes bytes' : List UInt8) : Prop :=
  bytes = bytes' ∨ ∃ entries entries', Reads bytes entries ∧ Reads bytes' entries' ∧
    AlikeMaps Value.Veiled entries entries'

/-- Bytes at a place of a disk that differ at most in tokens, or that a failing disk may have cut
off: those of a temporary file that was to become the session file. -/
def VeiledBeside (session : Option Path) (faults : DiskFaults) (place : List String)
    (bytes bytes' : List UInt8) : Prop :=
  Veiled bytes bytes' ∨
    faults.write.isSome = true ∧ ∃ p ∈ session, ∃ d : Disk, d.IsTemporary p place

/-- Where the session has no file, no such file is left. -/
theorem veiledBeside_none {faults : DiskFaults} {place : List String} {bytes bytes' : List UInt8} :
    VeiledBeside none faults place bytes bytes' ↔ Veiled bytes bytes' := by
  simp [VeiledBeside]

/-- Bytes of two session files of which the JSON objects are the same but for the tokens, texts that
are there and not empty in both. -/
structure DifferInTokens (bytes bytes' : List UInt8) (entries entries' : List (String × Value)) :
    Prop where
  /-- One is the text of an object. -/
  reads : Reads bytes entries
  /-- So is the other. -/
  reads' : Reads bytes' entries'
  /-- All but the tokens is the same. -/
  others : ∀ key, ¬ CellName.IsTokenKey key → find? entries key = find? entries' key
  /-- Both have tokens that are not empty. -/
  tokens : ∀ key, CellName.IsTokenKey key → ∃ s t, find? entries key = some (.text s) ∧
    find? entries' key = some (.text t) ∧ s ≠ "" ∧ t ≠ ""

/-- Such files differ in tokens that are not empty. -/
theorem DifferInTokens.veiled {bytes bytes' : List UInt8} {entries entries' : List (String × Value)}
    (h : DifferInTokens bytes bytes' entries entries') : Veiled bytes bytes' := by
  refine .inr ⟨entries, entries', h.reads, h.reads', fun key => ?_⟩
  by_cases hkey : CellName.IsTokenKey key
  · obtain ⟨s, t, hs, ht, hne⟩ := h.tokens key hkey
    rw [hs, ht]
    exact .some (.inr ⟨hkey, s, t, rfl, rfl, hne⟩)
  · rw [h.others key hkey]
    cases find? entries' key with
    | none => exact .none
    | some v => exact .some (.inl rfl)

/-- Values of a session file that differ at most in tokens. -/
structure VeiledValues (values values' : List (String × String)) : Prop where
  /-- Each key stands once. -/
  keyed : Keyed values
  /-- So it does on the other side. -/
  keyed' : Keyed values'
  /-- Under each key the same is found, or a token. -/
  alike : AlikeMaps VeiledText values values'

variable {bytes bytes' : List UInt8} {entries entries' : List (String × Value)}
  {values values' : List (String × String)}

/-- The values in a JSON object are the texts of its entries. -/
theorem Reads.decode_eq (h : Reads bytes entries) :
    decode bytes = .ok (entries.map fun (k, v) => (k, v.display)) := by
  obtain ⟨cs, hdecode, hread⟩ := h
  simp only [decode, hdecode, hread]

/-- Each of its keys stands once. -/
theorem Reads.keyed (h : Reads bytes entries) : Keyed entries := by
  obtain ⟨cs, -, hread⟩ := h
  exact Json.keyed_of_read hread

/-- Values that are the same, or tokens, have texts that are the same, or tokens. -/
theorem veiledText_display {key : String} {v w : Value} (h : v.Veiled key w) :
    VeiledText key v.display w.display := by
  rcases h with rfl | ⟨hkey, s, t, rfl, rfl, hs, ht⟩
  · exact .inl rfl
  · exact .inr ⟨hkey, hs, ht⟩

/-- Objects that differ in tokens have values that differ in tokens. -/
theorem Reads.veiledValues (h : Reads bytes entries) (h' : Reads bytes' entries')
    (halike : AlikeMaps Value.Veiled entries entries') :
    VeiledValues (entries.map fun (k, v) => (k, v.display))
      (entries'.map fun (k, v) => (k, v.display)) := by
  have hkeyed {entries : List (String × Value)} (h : Keyed entries) :
      Keyed (entries.map fun (k, v) => (k, v.display)) := by
    unfold Keyed at h ⊢
    rwa [List.map_map]
  refine ⟨hkeyed h.keyed, hkeyed h'.keyed, fun key => ?_⟩
  rw [Value.find?_map_snd, Value.find?_map_snd]
  have hkey := halike key
  generalize find? entries key = v at hkey ⊢
  generalize find? entries' key = v' at hkey ⊢
  cases hkey with
  | none => exact .none
  | some hv => exact .some (veiledText_display hv)

/-- Values with distinct keys are like themselves. -/
theorem VeiledValues.refl (h : Keyed values) : VeiledValues values values :=
  ⟨h, h, .refl (fun _ _ => .inl rfl) _⟩

/-- What is loaded from bytes has each key once. -/
theorem keyed_decode (h : decode bytes = .ok values) : Keyed values := by
  unfold decode at h
  split at h
  · contradiction
  · next cs hdecode =>
    split at h
    · cases h
      exact List.nodup_nil
    · contradiction
    · next entries hread =>
      cases h
      have hreads : Reads bytes entries := ⟨cs, hdecode, hread⟩
      exact (hreads.veiledValues hreads (.refl (fun _ _ => .inl rfl) _)).keyed
    · cases h
      exact List.nodup_nil

/-- What is read on two sides: the same refusal, or values that differ in tokens. -/
inductive VeiledReading :
    Except Raised (List (String × String)) → Except Raised (List (String × String)) → Prop
  /-- Both are refused for one reason. -/
  | error (e : Raised) : VeiledReading (.error e) (.error e)
  /-- Both answer values. -/
  | ok {values values' : List (String × String)} (h : VeiledValues values values') :
      VeiledReading (.ok values) (.ok values')

/-- What can be read at all is read the same on both sides, but for tokens. -/
theorem Veiled.decode (h : Veiled bytes bytes') :
    VeiledReading (SessionFile.decode bytes) (SessionFile.decode bytes') := by
  rcases h with rfl | ⟨entries, entries', hreads, hreads', halike⟩
  · cases hdecode : SessionFile.decode bytes with
    | error e => exact .error e
    | ok values => exact .ok (.refl (keyed_decode hdecode))
  · rw [hreads.decode_eq, hreads'.decode_eq]
    exact .ok (hreads.veiledValues hreads' halike)

/-- The bytes of a session file are the text of a JSON object with its values. -/
theorem reads_encode (h : Keyed values) : Reads (encode values) (Value.inOrder values) := by
  refine ⟨_, decode_encode h, ?_⟩
  rw [(Json.writeFile_spec h.readsBack_inOrder).2.1]
  exact read_text h

/-- What is found under a key of a session file is the text of its value. -/
theorem find?_inOrder (h : Keyed values) (key : String) :
    find? (Value.inOrder values) key = (find? values key).map .text := by
  rw [← h.inOrder.find?_perm (Value.inOrder_perm values), Value.ofTexts, Value.find?_map_snd]

/-- Values that differ in tokens are written as bytes that do. -/
theorem VeiledValues.encode (h : VeiledValues values values') :
    Veiled (encode values) (SessionFile.encode values') := by
  refine .inr ⟨_, _, reads_encode h.keyed, reads_encode h.keyed', fun key => ?_⟩
  rw [find?_inOrder h.keyed, find?_inOrder h.keyed']
  have hkey := h.alike key
  generalize find? values key = v at hkey ⊢
  generalize find? values' key = v' at hkey ⊢
  cases hkey with
  | none => exact .none
  | @some s t hv =>
    rcases hv with rfl | ⟨htoken, hs, ht⟩
    · exact .some (.inl rfl)
    · exact .some (.inr ⟨htoken, s, t, rfl, rfl, hs, ht⟩)

variable {d d' : Disk} {p : Path}

/-- Where there is no session file, all that is found differs at most in tokens. -/
theorem bytes?_veiled (h : d.Alike (VeiledBeside none) d') (q : Path) :
    Option.Rel Veiled (d.bytes? q) (d'.bytes? q) := by
  have hbytes := h.bytes? q
  generalize d.bytes? q = b at hbytes ⊢
  generalize d'.bytes? q = b' at hbytes ⊢
  cases hbytes with
  | none => exact .none
  | some hbytes => exact .some (veiledBeside_none.mp hbytes)

/-- So does what is found in the session file: none of its temporary files stands in its place. -/
theorem bytes?_session_veiled (h : d.Alike (VeiledBeside (some p)) d') :
    Option.Rel Veiled (d.bytes? p) (d'.bytes? p) := by
  have hbytes := h.bytes? p
  cases hp : p.endsInName with
  | false =>
    simp only [Disk.bytes?, hp]
    exact .none
  | true =>
    generalize d.bytes? p = b at hbytes ⊢
    generalize d'.bytes? p = b' at hbytes ⊢
    cases hbytes with
    | none => exact .none
    | some hbytes =>
      rcases hbytes with hveiled | ⟨-, q, hq, e, htemporary⟩
      · exact .some hveiled
      · obtain rfl := Option.mem_some.mp hq
        exact absurd rfl (htemporary.ne_locate hp d)

variable (h : d.Alike (VeiledBeside (some p)) d')

include h

/-- The values of a session file are loaded the same, but for tokens. -/
theorem load_veiled : VeiledReading (load d p) (load d' p) := by
  have hbytes := bytes?_session_veiled h
  unfold load
  generalize d.bytes? p = b at hbytes ⊢
  generalize d'.bytes? p = b' at hbytes ⊢
  cases hbytes with
  | none => exact .ok (.refl List.nodup_nil)
  | some hbytes => exact hbytes.decode

omit h in
/-- Values that differ in tokens are stored alike. -/
theorem store_inStep (hvalues : VeiledValues values values') :
    InStep (Disk.Alike (VeiledBeside (some p))) (store p values) (store p values') Eq := by
  intro d d' h
  obtain ⟨herror, halike⟩ := h.writeAtomically (p := p) (fun _ => .inl (.inl rfl))
    (fun _ => .inl hvalues.encode)
    (fun hwrite _ htemporary _ => .inr ⟨hwrite, p, rfl, d, htemporary⟩) (some Disk.privateMode)
  unfold store
  generalize d.writeAtomically p (SessionFile.encode values) _ = r at herror halike ⊢
  generalize d'.writeAtomically p (SessionFile.encode values') _ = r' at herror halike ⊢
  obtain ⟨error, e⟩ := r
  obtain ⟨error', e'⟩ := r'
  obtain rfl : error = error' := herror
  cases error with
  | none => exact .ok rfl halike
  | some _ => exact .error _ halike

/-- A key reads the same, but for tokens. -/
theorem get_veiled (key : String) :
    (∃ e, get p key d = .error e ∧ get p key d' = .error e) ∨
      ∃ v v', get p key d = .ok v ∧ get p key d' = .ok v' ∧ Option.Rel (VeiledText key) v v' := by
  have hload := load_veiled h
  unfold get
  generalize load d p = r at hload ⊢
  generalize load d' p = r' at hload ⊢
  cases hload with
  | error e => exact .inl ⟨e, rfl, rfl⟩
  | ok hvalues => exact .inr ⟨_, _, rfl, rfl, hvalues.alike key⟩

omit h in
/-- Texts that are the same, or tokens, are written alike. -/
theorem set_inStep {key v w : String} (hv : VeiledText key v w) :
    InStep (Disk.Alike (VeiledBeside (some p))) (set p key v) (set p key w) Eq := by
  intro d d' h
  have hload := load_veiled h
  unfold set
  generalize load d p = r at hload ⊢
  generalize load d' p = r' at hload ⊢
  cases hload with
  | error e => exact .error e h
  | ok hvalues =>
    exact store_inStep ⟨hvalues.keyed.insertEntry key v, hvalues.keyed'.insertEntry key w,
      hvalues.alike.insertEntry hv⟩ d d' h

omit h in
/-- A key is removed alike. -/
theorem remove_inStep (key : String) :
    InStep (Disk.Alike (VeiledBeside (some p))) (remove p key) (remove p key) Eq := by
  intro d d' h
  have hload := load_veiled h
  unfold remove
  generalize load d p = r at hload ⊢
  generalize load d' p = r' at hload ⊢
  cases hload with
  | error e => exact .error e h
  | ok hvalues =>
    dsimp only
    rw [hvalues.alike.isSome_find? key]
    split
    · exact store_inStep ⟨hvalues.keyed.eraseEntry key, hvalues.keyed'.eraseEntry key,
        hvalues.alike.eraseEntry key⟩ d d' h
    · exact .ok rfl h

end SessionFile

namespace Disk.Alike

variable {same : DiskFaults → List String → List UInt8 → List UInt8 → Prop} {d d' : Disk}
  (h : d.Alike same d')

include h

/-- Cache directories are given the same contents. -/
theorem withContents (place : List String) (c : CacheContents) :
    (CacheDirectory.withContents d place c).Alike same
      (CacheDirectory.withContents d' place c) := by
  refine ⟨h.entry, ?_, h.faults, h.workingDirectory, h.temporaries⟩
  rw [CacheDirectory.withContents, CacheDirectory.withContents, h.caches]

/-- They have the same contents. -/
theorem contents_eq (place : List String) :
    CacheDirectory.contents d place = CacheDirectory.contents d' place := by
  rw [CacheDirectory.contents, CacheDirectory.contents, h.caches]

/-- Their contents are changed in the same way. -/
theorem change (p : Path) (f : List (String × String) → List (String × String)) :
    (CacheDirectory.change p f d).Alike same (CacheDirectory.change p f d') := by
  rw [CacheDirectory.change, CacheDirectory.change, ← h.locate_eq, ← h.contents_eq]
  exact h.withContents _ _

/-- Connections to them are closed in the same way. -/
theorem disconnect (p : Path) :
    (CacheDirectory.disconnect p d).Alike same (CacheDirectory.disconnect p d') := by
  have herased (names : List String) (place : List String) :
      (names.foldl (fun d n => d.erase (place ++ [n])) d).Alike same
        (names.foldl (fun d n => d.erase (place ++ [n])) d') := by
    induction names generalizing d d' with
    | nil => exact h
    | cons name rest ih => exact ih (h.erase _)
  rw [CacheDirectory.disconnect, CacheDirectory.disconnect, ← h.locate_eq, ← h.contents_eq]
  split
  · exact (herased _ _).withContents _ _
  · exact h.withContents _ _

/-- They are made in the same way. -/
theorem create (p : Path) :
    Disk.SameEnd same (CacheDirectory.create p d) (CacheDirectory.create p d') := by
  have hmade := h.makeDirectories p
  unfold CacheDirectory.create
  generalize d.makeDirectories p = r at hmade ⊢
  generalize d'.makeDirectories p = r' at hmade ⊢
  cases hmade with
  | error e => cases e <;> exact .error _
  | ok hmade => exact .ok hmade

/-- Connections to them are opened in the same way. -/
theorem connect (hnone : ∀ faults place, same faults place [] []) (p : Path) :
    Disk.SameEnd same (CacheDirectory.connect p d) (CacheDirectory.connect p d') := by
  have hcreated := h.create p
  have hput {d d' : Disk} (h : d.Alike same d') (names : List String) (place : List String) :
      (names.foldl (fun d n => d.put (place ++ [n]) CacheDirectory.databaseFile) d).Alike same
        (names.foldl (fun d n => d.put (place ++ [n]) CacheDirectory.databaseFile) d') := by
    induction names generalizing d d' with
    | nil => exact h
    | cons name rest ih => exact ih (h.put (.file (hnone _ _) _))
  unfold CacheDirectory.connect
  generalize CacheDirectory.create p d = r at hcreated ⊢
  generalize CacheDirectory.create p d' = r' at hcreated ⊢
  cases hcreated with
  | error e => exact .error e
  | ok hcreated =>
    simp only [bind, Except.bind, ← hcreated.locate_eq, ← hcreated.contents_eq]
    exact .ok ((hput hcreated _ _).withContents _ _)

end Disk.Alike

namespace Mount

open SessionFile (VeiledBeside)

/-- Session files at one path on disks that differ in tokens. -/
def OnFile (p : Path) (m m' : Mount) : Prop :=
  m.disk.Alike (VeiledBeside (some p)) m'.disk ∧ m.backend = .file p ∧ m'.backend = .file p

/-- One backend that is no session file, on disks that differ in tokens. -/
def OffFile (m m' : Mount) : Prop :=
  m.disk.Alike (VeiledBeside none) m'.disk ∧ m.backend = m'.backend ∧ ∀ p, m.backend ≠ .file p

/-- What is done in step on the disks is done so on the mounts. -/
theorem onDisk_inStep {p : Path} {f g : Act Disk Unit}
    (h : InStep (Disk.Alike (VeiledBeside (some p))) f g Eq) :
    InStep (OnFile p) (onDisk f) (onDisk g) Eq := by
  rintro ⟨d, b⟩ ⟨d', b'⟩ ⟨halike, hfile⟩
  have hend := h d d' halike
  unfold onDisk
  dsimp only
  generalize f d = r at hend ⊢
  generalize g d' = r' at hend ⊢
  cases hend with
  | ok _ halike => exact .ok rfl ⟨halike, hfile⟩
  | error e halike => exact .error e ⟨halike, hfile⟩

/-- Session files at one path keep in step, up to tokens. -/
theorem storages_onFile (p : Path) : Likeness.veiled.Storages (OnFile p) where
  read n := by
    rintro ⟨d, b⟩ ⟨d', b'⟩ ⟨h, rfl, rfl⟩
    have hget := SessionFile.get_veiled h n.key
    simp only [Durable.read, Durable.get]
    rcases hget with ⟨e, hget, hget'⟩ | ⟨v, v', hget, hget', hv⟩
    · rw [hget, hget']
      exact .error e ⟨h, rfl, rfl⟩
    · rw [hget, hget']
      refine .ok ?_ ⟨h, rfl, rfl⟩
      cases hv with
      | none => exact .none
      | some hv => exact .some ((veiledText_key_iff n _ _).mp hv)
  set {n v w} hv := by
    rintro ⟨d, b⟩ ⟨d', b'⟩ ⟨h, rfl, rfl⟩
    have hset := SessionFile.set_inStep (p := p) ((veiledText_key_iff n v w).mpr hv)
    exact onDisk_inStep hset _ _ ⟨h, rfl, rfl⟩
  remove n := by
    rintro ⟨d, b⟩ ⟨d', b'⟩ ⟨h, rfl, rfl⟩
    exact onDisk_inStep (SessionFile.remove_inStep n.key) _ _ ⟨h, rfl, rfl⟩

/-- A change of a memory is the same wherever the disks differ in tokens. -/
theorem onMemory_offFile (memory : Memory) (f : Act Memory Unit) {d d' : Disk}
    (h : d.Alike (VeiledBeside none) d') :
    Outcomes OffFile Eq (onMemory memory f ⟨d, .memory memory⟩)
      (onMemory memory f ⟨d', .memory memory⟩) := by
  unfold onMemory
  cases f memory with
  | ok _ next => exact .ok rfl ⟨h, rfl, fun _ => Backend.noConfusion⟩
  | error e next => exact .error e ⟨h, rfl, fun _ => Backend.noConfusion⟩

/-- So is a change of a cache directory. -/
theorem changeCache_offFile (p : Path) (f : List (String × String) → List (String × String))
    (place : Path) (connected : Bool) (timeouts : CacheTimeouts)
    {d d' : Disk} (h : d.Alike (VeiledBeside none) d') :
    Outcomes OffFile Eq (changeCache p f ⟨d, .cache place connected timeouts⟩)
      (changeCache p f ⟨d', .cache place connected timeouts⟩) := by
  have hconnected : Outcomes OffFile Eq (Mount.connected ⟨d, .cache place connected timeouts⟩)
      (Mount.connected ⟨d', .cache place connected timeouts⟩) := by
    cases connected with
    | true => exact .ok rfl ⟨h, rfl, fun _ => Backend.noConfusion⟩
    | false =>
      have hconnect := h.connect (fun _ _ => .inl (.inl rfl)) place
      simp only [Mount.connected]
      generalize CacheDirectory.connect place d = r at hconnect ⊢
      generalize CacheDirectory.connect place d' = r' at hconnect ⊢
      cases hconnect with
      | error e => exact .error e ⟨h, rfl, fun _ => Backend.noConfusion⟩
      | ok hnext => exact .ok rfl ⟨hnext, rfl, fun _ => Backend.noConfusion⟩
  unfold changeCache
  rw [Act.bind_apply, Act.bind_apply]
  generalize Mount.connected ⟨d, .cache place connected timeouts⟩ = r at hconnected ⊢
  generalize Mount.connected ⟨d', .cache place connected timeouts⟩ = r' at hconnected ⊢
  cases hconnected with
  | error e h => exact .error e h
  | ok _ h => exact .ok rfl ⟨h.1.change p f, h.2⟩

/-- Other backends keep in step with no text different. -/
theorem storages_offFile : Likeness.exact.Storages OffFile where
  read n := by
    rintro ⟨d, b⟩ ⟨d', b'⟩ ⟨h, rfl, hfile⟩
    cases b with
    | memory memory => exact .ok (Likeness.rel_refl n _) ⟨h, rfl, hfile⟩
    | file p => exact absurd rfl (hfile p)
    | cache p connected timeouts =>
      refine .ok ?_ ⟨h, rfl, hfile⟩
      rw [CacheDirectory.get?, CacheDirectory.get?, ← h.locate_eq, ← h.contents_eq]
      exact Likeness.rel_refl n _
  set {n v w} hv := by
    obtain rfl : v = w := hv
    rintro ⟨d, b⟩ ⟨d', b'⟩ ⟨h, rfl, hfile⟩
    cases b with
    | memory memory => exact onMemory_offFile memory _ h
    | file p => exact absurd rfl (hfile p)
    | cache p connected timeouts =>
      simp only [Durable.set]
      split
      · exact .error _ ⟨h, rfl, hfile⟩
      · exact changeCache_offFile p _ p connected timeouts h
  remove n := by
    rintro ⟨d, b⟩ ⟨d', b'⟩ ⟨h, rfl, hfile⟩
    cases b with
    | memory memory => exact onMemory_offFile memory _ h
    | file p => exact absurd rfl (hfile p)
    | cache p connected timeouts =>
      simp only [Durable.remove]
      split
      · exact .error _ ⟨h, rfl, hfile⟩
      · exact changeCache_offFile p _ p connected timeouts h

end Mount

end BearerSession
