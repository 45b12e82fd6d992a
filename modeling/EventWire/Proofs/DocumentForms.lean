/-
EventWire.Proofs.DocumentForms — what is written down is read as the same.

A text is read as the document it was written from (`Json.read?_render`), so it is enough
to ask what the documents keep (`deserialize?_serialize`). They keep events, fields and
fingerprints, whichever they are, settings whose sizes have 64 bits, and records without
floats. A record comes back from a row of members as the map that it is, and not because
of the order they are in.

Floats are left out: a NaN and the infinities are all written as null.
-/
import EventWire.Proofs.Canonical
import EventWire.Proofs.DocumentText
import EventWire.Proofs.ReadEvents

namespace EventWire

/-! ## Texts and documents -/

section Texts

variable {α : Type} [JsonForm α]

/-- Text and document are read alike. -/
theorem deserialize?_serialize (x : α) : deserialize? α (serialize x) = ofJson? (toJson x) := by
  simp [deserialize?, serialize, Json.read?_render]

/-- Values that are read back have texts of their own. -/
theorem serialize_eq_iff {x y : α} (hx : ofJson? (toJson x) = some x)
    (hy : ofJson? (toJson y) = some y) : serialize x = serialize y ↔ x = y := by
  constructor
  · intro h
    have hread := deserialize?_serialize x
    rw [h, deserialize?_serialize, hx, hy] at hread
    exact (Option.some.inj hread).symm
  · rintro rfl
    rfl

end Texts

/-! ## Numbers and texts -/

namespace JsonForm

theorem faithful_bool : Faithful Bool := fun _ => rfl

/-- An integer within its range is read back as what it was written for. -/
theorem map_intWithin?_int {α : Type} {read : Int → α} {low high n : Int} {x : α}
    (hrange : low ≤ n ∧ n ≤ high) (hread : read n = x) :
    (Json.intWithin? low high (.int n)).map read = some x := by
  rw [intWithin?_int hrange, Option.map_some, hread]

theorem faithful_uint8 : Faithful UInt8 := by
  intro v
  have hrange := v.toNat_lt
  exact map_intWithin?_int (by omega) (by simp)

theorem faithful_int16 : Faithful Int16 := by
  intro v
  have hlow := v.le_toInt
  have hhigh := v.toInt_lt
  exact map_intWithin?_int (by omega) (by simp)

theorem faithful_int32 : Faithful Int32 := by
  intro v
  have hlow := v.le_toInt
  have hhigh := v.toInt_lt
  exact map_intWithin?_int (by omega) (by simp)

theorem ofJson?_size {n : Nat} (h : n < 2 ^ 64) : ofJson? (toJson n) = some n :=
  map_intWithin?_int (by omega) (by simp)

theorem ofJson?_limit {limit : Option Nat} (h : ∀ n ∈ limit, n < 2 ^ 64) :
    ofJson? (toJson limit) = some limit := by
  cases limit with
  | none => rfl
  | some n =>
    show (ofJson? (toJson n)).map some = some (some n)
    rw [ofJson?_size (h n rfl)]
    rfl

theorem faithful_fingerprint : Faithful Fingerprint := by
  intro fingerprint
  show (ofJson? (toJson fingerprint.value)).map Fingerprint.mk = some fingerprint
  rw [faithful_uint32]
  rfl

end JsonForm

/-! ## Records -/

def Value.isFloat : Value → Bool
  | .scalar (.float32 _) => true
  | .scalar (.float64 _) => true
  | _ => false

open JsonForm in
theorem Value.ofJson?_toJson {value : Value} (h : value.isFloat = false) :
    EventWire.ofJson? (EventWire.toJson value) = some value := by
  rcases value with (v | v | v | v | v) | s | bs
  · show (EventWire.ofJson? (EventWire.toJson v)).map (Value.scalar <| .byte ·) = _
    rw [faithful_uint8]
    rfl
  · show (EventWire.ofJson? (EventWire.toJson v)).map (Value.scalar <| .int16 ·) = _
    rw [faithful_int16]
    rfl
  · show (EventWire.ofJson? (EventWire.toJson v)).map (Value.scalar <| .int32 ·) = _
    rw [faithful_int32]
    rfl
  · exact nomatch h
  · exact nomatch h
  · show (EventWire.ofJson? (EventWire.toJson s)).map Value.string = _
    rw [faithful_string]
    rfl
  · show (EventWire.ofJson? (EventWire.toJson bs)).map Value.bytes = _
    rw [faithful_uint8.list]
    rfl

namespace Record

/-- No value of the record is a float. -/
def FloatFree (record : Record) : Prop := ∀ entry ∈ record.entries, entry.2.isFloat = false

instance (record : Record) : Decidable record.FloatFree :=
  inferInstanceAs (Decidable (∀ entry ∈ record.entries, entry.2.isFloat = false))

theorem lookupEntry_eq_find? (name : String) (entries : List (String × Value)) :
    lookupEntry name entries = (entries.find? (·.1 = name)).map Prod.snd := by
  induction entries with
  | nil => rfl
  | cons entry entries ih =>
    by_cases h : name = entry.1
    · simp [lookupEntry, h]
    · simp [lookupEntry, h, Ne.symm h, ih]

/-- A record is made of its own entries. -/
theorem ofList_entries (record : Record) : ofList record.entries = record := by
  have hnodup : (record.entries.map Prod.fst).Nodup := by
    refine List.pairwise_map.mpr (record.ascending.imp fun hlt heq => ?_)
    exact String.lt_irrefl _ (heq ▸ hlt)
  refine ext_get? fun name => ?_
  rw [get?_ofList_of_nodup hnodup, get?, lookupEntry_eq_find?]

theorem mapM_entryOfMember? {entries : List (String × Value)}
    (h : ∀ entry ∈ entries, entry.2.isFloat = false) :
    (entries.map fun entry => ((some entry.1, toJson entry.2) : Json.Literal × Json)).mapM
      entryOfMember? = some entries := by
  induction entries with
  | nil => rfl
  | cons entry entries ih =>
    obtain ⟨hentry, hentries⟩ := List.forall_mem_cons.mp h
    have hmember : entryOfMember? (some entry.1, toJson entry.2) = some entry := by
      simp [entryOfMember?, Value.ofJson?_toJson hentry]
    simp [hmember, ih hentries]

/-- **A record without floats is read back** from its document. -/
theorem FloatFree.ofJson?_toJson {record : Record} (h : record.FloatFree) :
    ofJson? (toJson record) = some record := by
  show ((((record.entries.map fun entry => (entry.1, toJson entry.2)).map fun member =>
    ((some member.1, member.2) : Json.Literal × Json)).mapM entryOfMember?).map ofList) = _
  rw [List.map_map]
  show ((record.entries.map fun entry => ((some entry.1, toJson entry.2) :
    Json.Literal × Json)).mapM entryOfMember?).map ofList = _
  rw [mapM_entryOfMember? h, Option.map_some, ofList_entries]

end Record

/-! ## Settings -/

def RegistrySettings.Sized (settings : RegistrySettings) : Prop :=
  settings.maxCompactEvents < 2 ^ 64

def FramerSettings.Sized (settings : FramerSettings) : Prop :=
  ∀ limit ∈ settings.maxPending, limit < 2 ^ 64

/-- The sizes among the settings have 64 bits. -/
structure Settings.Sized (settings : Settings) : Prop where
  registry : settings.registry.Sized
  framer : settings.framer.Sized

theorem RegistrySettings.Sized.ofJson?_toJson {settings : RegistrySettings}
    (h : settings.Sized) : ofJson? (toJson settings) = some settings := by
  have htypecheck : ofJson? (toJson settings.typecheck) = some settings.typecheck :=
    JsonForm.faithful_bool _
  have hlimit : ofJson? (toJson settings.maxCompactEvents) = some settings.maxCompactEvents :=
    JsonForm.ofJson?_size h
  show (do some (RegistrySettings.mk (← ofJson? (toJson settings.typecheck))
    (← ofJson? (toJson settings.maxCompactEvents)))) = _
  rw [htypecheck, hlimit]
  rfl

theorem FramerSettings.Sized.ofJson?_toJson {settings : FramerSettings} (h : settings.Sized) :
    ofJson? (toJson settings) = some settings := by
  show (ofJson? (toJson settings.maxPending)).map FramerSettings.mk = _
  rw [JsonForm.ofJson?_limit h]
  rfl

theorem Settings.Sized.ofJson?_toJson {settings : Settings} (h : settings.Sized) :
    ofJson? (toJson settings) = some settings := by
  show (do some (Settings.mk (← ofJson? (toJson settings.registry))
    (← ofJson? (toJson settings.framer)))) = _
  rw [h.registry.ofJson?_toJson, h.framer.ofJson?_toJson]
  rfl

/-! ## What is kept -/

/-- **What is written down is read as the same.** This is so for every record without
floats, and two of these have one text only if they are equal. It is so for every event,
checked or not, every field and every fingerprint, and for all settings that have sizes
of 64 bits. -/
theorem written_is_read :
    (∀ record : Record, record.FloatFree →
      deserialize? Record (serialize record) = some record) ∧
    (∀ record other : Record, record.FloatFree → other.FloatFree →
      (serialize record = serialize other ↔ record = other)) ∧
    (∀ event : Event, deserialize? Event (serialize event) = some event) ∧
    (∀ field : Field, deserialize? Field (serialize field) = some field) ∧
    (∀ fingerprint : Fingerprint,
      deserialize? Fingerprint (serialize fingerprint) = some fingerprint) ∧
    (∀ settings : RegistrySettings, settings.Sized →
      deserialize? RegistrySettings (serialize settings) = some settings) ∧
    (∀ settings : FramerSettings, settings.Sized →
      deserialize? FramerSettings (serialize settings) = some settings) ∧
    ∀ settings : Settings, settings.Sized →
      deserialize? Settings (serialize settings) = some settings := by
  refine ⟨fun record h => ?_, fun record other h hother => ?_, fun event => ?_, fun field => ?_,
    fun fingerprint => ?_, fun settings h => ?_, fun settings h => ?_, fun settings h => ?_⟩
  · rw [deserialize?_serialize, h.ofJson?_toJson]
  · exact serialize_eq_iff h.ofJson?_toJson hother.ofJson?_toJson
  · rw [deserialize?_serialize, JsonForm.faithful_event]
  · rw [deserialize?_serialize, JsonForm.faithful_field]
  · rw [deserialize?_serialize, JsonForm.faithful_fingerprint]
  · rw [deserialize?_serialize, h.ofJson?_toJson]
  · rw [deserialize?_serialize, h.ofJson?_toJson]
  · rw [deserialize?_serialize, h.ofJson?_toJson]

/-- A record with all that has to be escaped, and the ends of the ranges. -/
def Record.oddities : Record := .ofList
  [("", .string "\"\\/\x08\t\n\x0c\r\x01\x1f\x7f😀"), ("\n", .bytes [0, 255]),
    ("byte", .scalar (.byte 255)), ("long", .scalar (.int32 (-0x80000000))),
    ("\"short\"", .scalar (.int16 (-0x8000)))]

/-- An event that no definition gives: its name is reserved, and a field comes twice. -/
def Event.oddity : Event := ⟨0, "close", [⟨"x", .blob .bytes⟩, ⟨"x", .scalar .byte⟩]⟩

theorem written_is_read_oddities :
    deserialize? Record (serialize Record.oddities) = some .oddities ∧
    serialize Record.oddities ≠ serialize Record.empty ∧
    deserialize? Event (serialize Event.oddity) = some .oddity ∧
    deserialize? RegistrySettings (serialize Settings.permissive.registry) =
      some Settings.permissive.registry ∧
    deserialize? FramerSettings (serialize Settings.strict.framer) =
      some Settings.strict.framer ∧
    deserialize? Settings (serialize Settings.strict) = some .strict := by
  have hoddities : Record.oddities.FloatFree := by decide +kernel
  have hempty : Record.empty.FloatFree := by decide
  have hregistry : Settings.permissive.registry.Sized := by
    show 255 < 2 ^ 64
    decide
  have hframer : Settings.strict.framer.Sized := by
    rintro limit ⟨⟩
    decide
  obtain ⟨hrecord, hrecords, hevent, -, -, hregistries, hframers, hsettings⟩ := written_is_read
  refine ⟨hrecord _ hoddities, fun h => ?_, hevent _, hregistries _ hregistry,
    hframers _ hframer, hsettings _ ⟨hregistry, hframer⟩⟩
  exact absurd ((hrecords _ _ hoddities hempty).mp h) (by decide +kernel)

end EventWire
