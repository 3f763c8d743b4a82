/-
**Settings are read as they are listed.**

A text of an object lists settings: the entry of a key gives the value of its field, in any order,
and entries of other keys hold any documents. What is not listed is standard. The reader adds one
entry after another to what was given before. At each of them a field was given already and is not
listed further on, or it was not and is listed as before. So at the end all that was listed is
given.

* `Settings.Names`: the keys that the members of an object decode to.
* `Settings.Field.Lists`: the documents that list a field.
* `Settings.Pending`: what is true of a field between two entries.
* **`Settings.addMembers?_of_pending`**: the entries are added up to what is listed.
* **`Settings.settings_read_as_listed`**: written settings are read back, and listed ones are read.
-/

import Mathlib.Data.List.Forall2
import SqlDraft.Settings
import SqlDraft.Proofs.Json.Reading
import SqlDraft.Proofs.Json.Writing

namespace SqlDraft.Settings

open Json (Decodes Spells SpellsString)

/-! ### What a text lists -/

/-- The documents that stand for a dialect: its name, or an object with the name as the key of
null. -/
inductive NamesDialect : Json → Dialect → Prop
  | name {units : List JsonUnit} {dialect : Dialect} (decodes : Decodes units dialect.name.toList) :
      NamesDialect (.string units) dialect
  | tagged {units : List JsonUnit} {dialect : Dialect}
      (decodes : Decodes units dialect.name.toList) :
      NamesDialect (.object [(units, .null)]) dialect

/-- The document that stands for a size: its decimal digits. -/
def GivesSize (document : Json) (size : UInt64) : Prop :=
  document = .number (Nat.toDigits 10 size.toNat)

/-- The keys of members decode to those of entries, which have the same documents. -/
def Names (members : List (List JsonUnit × Json)) (entries : List (String × Json)) : Prop :=
  List.Forall₂ (fun member entry => Decodes member.1 entry.1.toList ∧ member.2 = entry.2)
    members entries

/-- The documents of a key. -/
def documentsOf (key : String) (entries : List (String × Json)) : List Json :=
  (entries.filter (·.1 = key)).map (·.2)

/-- The documents list the value of a field: there is one of them if there is a value, and else
none. -/
def Field.Lists (listed : Given) : Field → List Json → Prop
  | .dialect, documents => List.Forall₂ NamesDialect documents listed.dialect.toList
  | .chunkSize, documents => List.Forall₂ GivesSize documents listed.chunkSize.toList
  | .textRoom, documents => List.Forall₂ GivesSize documents listed.textRoom.toList

/-! ### Single values -/

theorem dialect?_of_names {document : Json} {dialect : Dialect}
    (names : NamesDialect document dialect) : dialect? document = some dialect := by
  cases names with
  | name decodes | tagged decodes =>
    rw [dialect?, Json.decode?_of_decodes decodes, Option.bind_some, String.ofList_toList,
      Dialect.ofName?_name]

theorem digitsValue_toDigits (value : Nat) : digitsValue (Nat.toDigits 10 value) = value :=
  Nat.ofDigitChars_ten_toDigits

theorem size?_of_gives {document : Json} {size : UInt64} (gives : GivesSize document size) :
    size? document = some size := by
  obtain rfl := gives
  have digits : (Nat.toDigits 10 size.toNat).all Char.isDigit :=
    List.all_eq_true.mpr fun char member =>
      Nat.isDigit_of_mem_toDigits (by decide) (by decide) member
  rw [size?, digitsValue_toDigits, if_pos ⟨digits, size.toNat_lt_size⟩, UInt64.ofNat_toNat]

/-! ### Fields -/

/-- A field has the same value in both. -/
def Given.Agrees (given other : Given) : Field → Prop
  | .dialect => given.dialect = other.dialect
  | .chunkSize => given.chunkSize = other.chunkSize
  | .textRoom => given.textRoom = other.textRoom

/-- Takes over the value of a field. -/
def Given.take (given source : Given) : Field → Given
  | .dialect => { given with dialect := source.dialect }
  | .chunkSize => { given with chunkSize := source.chunkSize }
  | .textRoom => { given with textRoom := source.textRoom }

theorem Given.eq_of_agrees {given other : Given} (agrees : ∀ field, given.Agrees other field) :
    given = other := by
  obtain ⟨dialect, chunkSize, textRoom⟩ := given
  obtain rfl : dialect = other.dialect := agrees .dialect
  obtain rfl : chunkSize = other.chunkSize := agrees .chunkSize
  obtain rfl : textRoom = other.textRoom := agrees .textRoom
  rfl

theorem Given.Agrees.trans {given other third : Given} {field : Field}
    (first : given.Agrees other field) (second : other.Agrees third field) :
    given.Agrees third field := by
  cases field <;> exact Eq.trans first second

theorem Given.take_agrees (given source : Given) (field : Field) :
    (given.take source field).Agrees source field := by
  cases field <;> rfl

/-- Taking over a field leaves the others as they are. -/
theorem Given.take_agrees_iff (given source third : Given) {field other : Field}
    (apart : other ≠ field) :
    (given.take source field).Agrees third other ↔ given.Agrees third other := by
  cases field <;> cases other <;> first | exact absurd rfl apart | rfl

/-- What no document lists has no value. -/
theorem Field.Lists.agrees_none {listed : Given} {field : Field} (lists : field.Lists listed []) :
    ({} : Given).Agrees listed field := by
  cases field <;> exact (Option.toList_eq_nil_iff.mp (List.forall₂_nil_left_iff.mp lists)).symm

/-- A list of options has one item at most. -/
theorem forall₂_toList_cons {α β : Type} {related : α → β → Prop} {first : α} {rest : List α}
    {value : Option β} (all : List.Forall₂ related (first :: rest) value.toList) :
    ∃ found, value = some found ∧ related first found ∧ rest = [] := by
  cases value with
  | none => cases all
  | some found =>
    obtain _ | ⟨here, others⟩ := all
    exact ⟨found, rfl, here, List.forall₂_nil_right_iff.mp others⟩

/-- **A document that lists a field is added**, if the field was not given before. No other document
lists it. -/
theorem add?_of_lists {given listed : Given} {field : Field} {document : Json}
    {documents : List Json} (lacks : given.Agrees {} field)
    (lists : field.Lists listed (document :: documents)) :
    given.add? field document = some (given.take listed field) ∧ documents = [] := by
  cases field with
  | dialect =>
    obtain ⟨dialect, value, names, rfl⟩ := forall₂_toList_cons lists
    have missing : given.dialect = none := lacks
    refine ⟨?_, rfl⟩
    simp only [Given.add?, Given.take, missing, value, dialect?_of_names names,
      Option.isSome_none, Bool.false_eq_true, if_false]
    rfl
  | chunkSize =>
    obtain ⟨size, value, gives, rfl⟩ := forall₂_toList_cons lists
    have missing : given.chunkSize = none := lacks
    refine ⟨?_, rfl⟩
    simp only [Given.add?, Given.take, missing, value, size?_of_gives gives,
      Option.isSome_none, Bool.false_eq_true, if_false]
    rfl
  | textRoom =>
    obtain ⟨size, value, gives, rfl⟩ := forall₂_toList_cons lists
    have missing : given.textRoom = none := lacks
    refine ⟨?_, rfl⟩
    simp only [Given.add?, Given.take, missing, value, size?_of_gives gives,
      Option.isSome_none, Bool.false_eq_true, if_false]
    rfl

theorem Field.key_injective : Function.Injective Field.key := by
  intro field other same
  cases field <;> cases other <;> first | rfl | exact absurd same (by decide)

/-- A key is that of its field and of no other. -/
theorem Field.ofKey?_eq_some {key : String} {field : Field}
    (found : Field.ofKey? key.toList = some field) : field.key = key := by
  have same := List.find?_some found
  exact String.toList_injective (of_decide_eq_true same)

theorem Field.ofKey?_eq_none {key : String} (none : Field.ofKey? key.toList = none)
    (field : Field) : field.key ≠ key := by
  rintro rfl
  have known : field ∈ Field.all := by cases field <;> decide
  have other := List.find?_eq_none.mp none field known
  exact other (decide_eq_true rfl)

/-! ### Entries -/

theorem documentsOf_cons (key : String) (document : Json) (entries : List (String × Json)) :
    documentsOf key ((key, document) :: entries) = document :: documentsOf key entries := by
  rw [documentsOf, List.filter_cons_of_pos]
  · rfl
  · exact decide_eq_true rfl

theorem documentsOf_cons_of_ne {key other : String} (apart : key ≠ other) (document : Json)
    (entries : List (String × Json)) :
    documentsOf key ((other, document) :: entries) = documentsOf key entries := by
  rw [documentsOf, List.filter_cons_of_neg, documentsOf]
  exact fun same => apart (of_decide_eq_true same).symm

/-- Between two entries, a field was given already and is not listed by those to come, or it was not
given and they list it. -/
def Pending (given listed : Given) (entries : List (String × Json)) (field : Field) : Prop :=
  (given.Agrees listed field ∧ documentsOf field.key entries = []) ∨
    (given.Agrees {} field ∧ field.Lists listed (documentsOf field.key entries))

/-- **The entries are added up** to what is listed. -/
theorem addMembers?_of_pending {members : List (List JsonUnit × Json)}
    {entries : List (String × Json)} (names : Names members entries) {given listed : Given}
    (pending : ∀ field, Pending given listed entries field) :
    given.addMembers? members = some listed := by
  induction names generalizing given with
  | nil =>
    have agrees : ∀ field, given.Agrees listed field := by
      intro field
      obtain ⟨agrees, -⟩ | ⟨lacks, lists⟩ := pending field
      · exact agrees
      · exact lacks.trans lists.agrees_none
    rw [Given.eq_of_agrees agrees, Given.addMembers?]
  | @cons member entry members entries named names step =>
    obtain ⟨units, document⟩ := member
    obtain ⟨key, same⟩ := entry
    obtain ⟨decodes, rfl⟩ : Decodes units key.toList ∧ document = same := named
    rw [Given.addMembers?, Json.decode?_of_decodes decodes]
    cases found : Field.ofKey? key.toList with
    | none =>
      simp only [found]
      refine step fun field => ?_
      have still := pending field
      rwa [Pending, documentsOf_cons_of_ne (Field.ofKey?_eq_none found field)] at still
    | some field =>
      simp only [found]
      obtain rfl := Field.ofKey?_eq_some found
      obtain ⟨-, none⟩ | ⟨lacks, lists⟩ := pending field
      · rw [documentsOf_cons] at none
        cases none
      · rw [documentsOf_cons] at lists
        obtain ⟨added, none⟩ := add?_of_lists lacks lists
        rw [added, Option.bind_some]
        refine step fun other => ?_
        -- The field itself goes over to those that were given; nothing changes for the others.
        by_cases same : other = field
        · subst same
          exact .inl ⟨given.take_agrees listed other, none⟩
        · have apart : other.key ≠ field.key := fun keys => same (Field.key_injective keys)
          have still := pending other
          rw [Pending, documentsOf_cons_of_ne apart] at still
          rwa [Pending, Given.take_agrees_iff _ _ _ same, Given.take_agrees_iff _ _ _ same]

/-- **Settings are read as they are listed.** -/
theorem read?_of_lists {text : String} {members : List (List JsonUnit × Json)}
    {entries : List (String × Json)} {listed : Given}
    (spelled : Spells (.element (.object members)) text.toList) (names : Names members entries)
    (lists : ∀ field : Field, field.Lists listed (documentsOf field.key entries)) :
    read? text = some listed.settings := by
  have pending : ∀ field, Pending {} listed entries field := fun field =>
    .inr ⟨by cases field <;> rfl, lists field⟩
  rw [read?, Json.document?_of_spells spelled, Option.bind_some, ofJson?,
    addMembers?_of_pending names pending, Option.map_some]

/-! ### Written settings -/

/-- A written member is a member. -/
theorem exists_memberText (key : String) {document : Json} {value : List Char}
    (spelled : Spells (.value document) value) :
    ∃ units, Spells (.member units document) (memberText key value) ∧
      Decodes units key.toList := by
  obtain ⟨units, isKey, decodes⟩ := Json.exists_units key.toList
  have member := Spells.member Json.blanks_nil isKey Json.blanks_nil (Json.spells_element spelled)
  exact ⟨units, member, decodes⟩

/-- A size is written as its digits. -/
theorem spells_size (size : UInt64) :
    Spells (.value (.number (Nat.toDigits 10 size.toNat))) (Nat.toDigits 10 size.toNat) :=
  .number (Json.spellsNumber_toDigits _)

/-- The entries of written settings, where the units of the name of the dialect are these. -/
def entries (settings : Settings) (name : List JsonUnit) : List (String × Json) :=
  [ (Field.dialect.key, .string name),
    (Field.chunkSize.key, .number (Nat.toDigits 10 settings.chunkSize.toNat)),
    (Field.textRoom.key, .number (Nat.toDigits 10 settings.textRoom.toNat)) ]

/-- All that is given for settings when none are left out. -/
def given (settings : Settings) : Given :=
  ⟨some settings.dialect, some settings.chunkSize, some settings.textRoom⟩

theorem lists_entries (settings : Settings) {name : List JsonUnit}
    (decodes : Decodes name settings.dialect.name.toList) (field : Field) :
    field.Lists settings.given (documentsOf field.key (settings.entries name)) := by
  cases field with
  | dialect => exact .cons (.name decodes) .nil
  | chunkSize => exact .cons rfl .nil
  | textRoom => exact .cons rfl .nil

/-- Written settings are an object with these entries. -/
theorem exists_members (settings : Settings) {name : List JsonUnit}
    (spelled : SpellsString name (Json.quoted settings.dialect.name.toList)) :
    ∃ members, Spells (.element (.object members)) settings.text.toList ∧
      Names members (settings.entries name) := by
  obtain ⟨dialectKey, isDialect, decodesDialect⟩ :=
    exists_memberText Field.dialect.key (.string spelled)
  obtain ⟨chunkKey, isChunk, decodesChunk⟩ :=
    exists_memberText Field.chunkSize.key (spells_size settings.chunkSize)
  obtain ⟨roomKey, isRoom, decodesRoom⟩ :=
    exists_memberText Field.textRoom.key (spells_size settings.textRoom)
  have object := Spells.object (.nextMember isDialect (.nextMember isChunk (.lastMember isRoom)))
  refine ⟨[(dialectKey, _), (chunkKey, _), (roomKey, _)], ?_, .cons ⟨decodesDialect, rfl⟩
    (.cons ⟨decodesChunk, rfl⟩ (.cons ⟨decodesRoom, rfl⟩ .nil))⟩
  rw [text, String.toList_ofList, chars, List.intercalate_cons_cons, List.intercalate_cons_cons,
    List.intercalate_singleton, List.append_assoc, List.append_assoc, List.singleton_append,
    List.singleton_append]
  exact Json.spells_element object

/-- **Written settings are read back.** -/
theorem read?_text (settings : Settings) : read? settings.text = some settings := by
  obtain ⟨name, spelled, decodes⟩ := Json.exists_units settings.dialect.name.toList
  obtain ⟨members, object, names⟩ := settings.exists_members spelled
  exact read?_of_lists object names (settings.lists_entries decodes)

/-! ### All settings and all listings -/

/-- **Settings survive being written, and are read as they are listed.** Written settings are read
back, whatever they are. And where a text is an object whose keys decode, and where each field is
listed once at most, the text is read as what it lists, with the standard dialect and sizes for what
it does not. The order of its members, its blanks, its escapes and its other members make no
difference. A list of one document or none is held to an option here. -/
theorem settings_read_as_listed :
    (∀ settings : Settings, read? settings.text = some settings) ∧
    ∀ (text : String) (members : List (List JsonUnit × Json)) (entries : List (String × Json))
      (listed : Given),
      Spells (.element (.object members)) text.toList → Names members entries →
      List.Forall₂ NamesDialect (documentsOf "dialect" entries) listed.dialect.toList →
      List.Forall₂ GivesSize (documentsOf "node_chunk_size" entries) listed.chunkSize.toList →
      List.Forall₂ GivesSize (documentsOf "buffer_capacity" entries) listed.textRoom.toList →
      read? text = some
        { dialect := listed.dialect.getD .postgres
          chunkSize := listed.chunkSize.getD 64
          textRoom := listed.textRoom.getD 256 } := by
  refine ⟨read?_text, ?_⟩
  intro text members entries listed spelled names dialect chunkSize textRoom
  refine read?_of_lists spelled names fun field => ?_
  cases field with
  | dialect => exact dialect
  | chunkSize => exact chunkSize
  | textRoom => exact textRoom

/-- Members of other keys are passed over, and keys may be escaped. What is missing is standard. -/
theorem settings_read_among_others :
    read? (" \x7b\"x\":[1,\x7b\x7d], \"node_chunk_size\" : 16,\"x\":null," ++
      "\"\\u0064ialect\":\"sqlite\"\x7d") = some ⟨.sqlite, 16, 256⟩ := by
  have plain (text : String) (all : text.toList.Forall fun char =>
      32 ≤ char.toNat ∧ char ≠ '"' ∧ char ≠ '\\') :
      Json.SpellsUnits (text.toList.map .char) text.toList :=
    Json.spellsUnits_chars (List.forall_iff_forall_mem.mp all)
  have other := SpellsString.marked (plain "x" (by decide))
  have chunk := SpellsString.marked (plain "node_chunk_size" (by decide))
  have name := SpellsString.marked (plain "sqlite" (by decide))
  have zero : Json.IsHex '0' 0 := ⟨by decide, .inl rfl⟩
  have six : Json.IsHex '6' 6 := ⟨by decide, .inl rfl⟩
  have four : Json.IsHex '4' 4 := ⟨by decide, .inl rfl⟩
  have dialect := SpellsString.marked (.code zero zero six four (plain "ialect" (by decide)))
  have none := Json.blanks_nil
  have blank : Json.Blanks [' '] := List.forall_mem_singleton.mpr (by decide)
  have array := Spells.array (.nextElement (Json.spells_element (spells_size 1))
    (.lastElement (Json.spells_element (.emptyObject none))))
  have members := Spells.nextMember (.member none other none (Json.spells_element array))
    (.nextMember (.member blank chunk blank (.element blank (spells_size 16) none))
      (.nextMember (.member none other none (Json.spells_element .null))
        (.lastMember (.member none dialect none (Json.spells_element (.string name))))))
  refine settings_read_as_listed.2 _ _
    [("x", .array [.number ['1'], .object []]), ("node_chunk_size", .number ['1', '6']),
      ("x", .null), ("dialect", .string ("sqlite".toList.map .char))]
    ⟨some .sqlite, some 16, Option.none⟩ (.element blank (.object members) none) ?_
    (.cons (.name (Json.decodes_chars _)) .nil) (.cons rfl .nil) .nil
  exact .cons ⟨Json.decodes_chars _, rfl⟩ (.cons ⟨Json.decodes_chars _, rfl⟩
    (.cons ⟨Json.decodes_chars _, rfl⟩ (.cons ⟨.code 'd' (Json.decodes_chars _), rfl⟩ .nil)))

end SqlDraft.Settings
