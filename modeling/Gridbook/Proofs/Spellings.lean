import Gridbook.Proofs.Wires
import Mathlib.Data.List.Forall2

/-!
The spellings of a value on the wire. A record may be given by its values in order or by members under their names, a
name as a string or as the key of a null, a map with keys that come again: `Json.IsRecord`, `Json.IsName` and the
relations beside them say which documents are spellings of what, and a type's documents are read by these rules
(`Wire.Grammar`). Writing picks one spelling of each value, which is read back as the value.
-/
namespace Gridbook.Json

/-- A list is read item by item. -/
theorem mapM_eq_some_iff {α β : Type} {read? : α → Option β} {as : List α} {bs : List β} :
    as.mapM read? = some bs ↔ List.Forall₂ (fun a b => read? a = some b) as bs := by
  induction as generalizing bs with
  | nil => cases bs <;> simp
  | cons a as ih =>
    simp only [List.mapM_cons, Option.bind_eq_bind, Option.bind_eq_some_iff, Option.pure_def, Option.some.injEq]
    constructor
    · rintro ⟨b, first, rest, further, rfl⟩
      exact .cons first (ih.1 further)
    · rintro (_ | ⟨first, further⟩)
      exact ⟨_, first, _, ih.2 further, rfl⟩

inductive IsText (text : String) : Json → Prop
  | string {literal : List Char} (decoded : key? literal = some text) : IsText text (.string literal)

theorem text?_eq_some_iff {json : Json} {text : String} : json.text? = some text ↔ IsText text json := by
  constructor
  · intro found
    cases json with
    | string literal => exact .string found
    | _ => cases found
  · rintro ⟨decoded⟩
    exact decoded

theorem bool?_eq_some_iff {json : Json} {value : Bool} : json.bool? = some value ↔ json = .bool value := by
  cases json <;> simp [bool?]

/-- A name as a string, or as the key of a null that stands alone. -/
inductive IsName (name : String) : Json → Prop
  | string {literal : List Char} (decoded : key? literal = some name) : IsName name (.string literal)
  | member {key : List Char} (decoded : key? key = some name) : IsName name (.object [(key, .null)])

theorem variant?_eq_some_iff {α : Type} {name : α → String} {ofName? : String → Option α}
    (named : ∀ text value, ofName? text = some value ↔ text = name value) {json : Json} {value : α} :
    variant? ofName? json = some value ↔ IsName (name value) json := by
  constructor
  · intro found
    unfold variant? at found
    split at found
    · next literal =>
      obtain ⟨text, decoded, known⟩ := Option.bind_eq_some_iff.1 found
      exact .string ((named text value).1 known ▸ decoded)
    · next key =>
      obtain ⟨text, decoded, known⟩ := Option.bind_eq_some_iff.1 found
      exact .member ((named text value).1 known ▸ decoded)
    · cases found
  · have known := (named (name value) value).2 rfl
    rintro (decoded | decoded) <;> simp [variant?, decoded, known]

def Keyed (members : List (List Char × Json)) (entries : List (String × Json)) : Prop :=
  List.Forall₂ (fun member entry => key? member.1 = some entry.1 ∧ member.2 = entry.2) members entries

theorem members?_object {members : List (List Char × Json)} {entries : List (String × Json)} :
    (Json.object members).members? = some entries ↔ Keyed members entries := by
  have each (member : List Char × Json) (entry : String × Json) :
      (do return (← key? member.1, member.2)) = some entry ↔ key? member.1 = some entry.1 ∧ member.2 = entry.2 := by
    obtain ⟨key, value⟩ := entry
    cases key? member.1 <;> simp
  unfold Keyed
  simp only [← each]
  exact mapM_eq_some_iff

/-- A record: all values in order, or members under the names of the fields, in any order and among others. Of each
field there is one member with its value, or none. -/
inductive IsRecord (fields : List String) (values : List (Option Json)) : Json → Prop
  | inOrder {items : List Json} (all : items.length = fields.length) (same : values = items.map some) :
    IsRecord fields values (.array items)
  | byName {members : List (List Char × Json)} {entries : List (String × Json)} (keyed : Keyed members entries)
    (found : List.Forall₂ (fun name value => (entries.filter (·.1 = name)).map (·.2) = value.toList) fields values) :
    IsRecord fields values (.object members)

/-- The values under the names are found if none of the names comes twice. -/
theorem forall₂_found {found : String → List (String × Json)} {fields : List String} {values : List (Option Json)} :
    List.Forall₂ (fun name value => (found name).map (·.2) = value.toList) fields values ↔
      (∀ name ∈ fields, (found name).length ≤ 1) ∧ fields.map (fun name => (found name).head?.map (·.2)) = values := by
  have single (name : String) (value : Option Json) :
      (found name).map (·.2) = value.toList ↔ (found name).length ≤ 1 ∧ (found name).head?.map (·.2) = value := by
    match found name, value with
    | [], none | [], some _ | [_], none | [_], some _ | _ :: _ :: _, none | _ :: _ :: _, some _ => simp
  induction fields generalizing values with
  | nil => cases values <;> simp
  | cons name fields ih =>
    cases values with
    | nil => simp
    | cons value values =>
      rw [List.forall₂_cons, single name value]
      simp only [List.mem_cons, forall_eq_or_imp, List.map_cons, List.cons.injEq]
      exact (and_congr_right fun _ => ih).trans and_and_and_comm

theorem values?_eq_some_iff {fields : List String} {values : List (Option Json)} {json : Json} :
    RecordShape.values? ⟨fields, false⟩ json = some values ↔ IsRecord fields values json := by
  cases json with
  | array items =>
    constructor
    · intro found
      simp only [RecordShape.values?] at found
      split at found
      · next all =>
        obtain all : items.length = fields.length := by simpa using all
        exact .inOrder all (by simpa [all] using found.symm)
      · cases found
    · rintro (⟨all, same⟩ | _)
      simp [RecordShape.values?, all, same]
  | object members =>
    have opened : RecordShape.values? ⟨fields, false⟩ (.object members) = some values ↔
        ∃ entries, (Json.object members).members? = some entries ∧
          (∀ name ∈ fields, (entries.filter (·.1 = name)).length ≤ 1) ∧
          fields.map (fun name => (entries.filter (·.1 = name)).head?.map (·.2)) = values := by
      simp only [RecordShape.values?, Option.bind_eq_bind, Option.bind_eq_some_iff]
      refine exists_congr fun entries => and_congr_right fun _ => ?_
      simp
    rw [opened]
    constructor
    · rintro ⟨entries, decoded, found⟩
      exact .byName (members?_object.1 decoded) (forall₂_found.2 found)
    · rintro (_ | ⟨keyed, found⟩)
      exact ⟨_, members?_object.2 keyed, forall₂_found.1 found⟩
  | _ =>
    refine ⟨fun found => ?_, fun record => ?_⟩
    · cases found
    · cases record

theorem isRecord_record {fields : List String} {values : List (Option Json)} {members : List (String × Json)}
    (found : List.Forall₂ (fun name value => (members.filter (·.1 = name)).map (·.2) = value.toList) fields values) :
    IsRecord fields values (record members) :=
  .byName (members?_object.1 (members?_record members)) found

/-- A map from names: each member is an entry, in its order. -/
inductive IsMap {α β : Type} (name : α → String) (spells : β → Json → Prop) (listed : List (α × β)) : Json → Prop
  | object {members : List (List Char × Json)} {entries : List (String × Json)} (keyed : Keyed members entries)
    (each : List.Forall₂ (fun entry item => entry.1 = name item.1 ∧ spells item.2 entry.2) entries listed) :
    IsMap name spells listed (.object members)

theorem mapOf?_eq_some_iff {α β : Type} {name : α → String} {ofName? : String → Option α} {value? : Json → Option β}
    {spells : β → Json → Prop} (named : ∀ text a, ofName? text = some a ↔ text = name a)
    (reads : ∀ json b, value? json = some b ↔ spells b json) {json : Json} {listed : List (α × β)} :
    json.mapOf? ofName? value? = some listed ↔ IsMap name spells listed json := by
  have item (entry : String × Json) (pair : α × β) :
      (do return (← ofName? entry.1, ← value? entry.2)) = some pair ↔
        entry.1 = name pair.1 ∧ spells pair.2 entry.2 := by
    rw [← named, ← reads]
    obtain ⟨a, b⟩ := pair
    cases ofName? entry.1 <;> cases value? entry.2 <;> simp
  have opened : json.mapOf? ofName? value? = some listed ↔
      ∃ entries, json.members? = some entries ∧
        List.Forall₂ (fun entry pair => entry.1 = name pair.1 ∧ spells pair.2 entry.2) entries listed := by
    simp only [← item]
    exact Option.bind_eq_some_iff.trans (exists_congr fun _ => and_congr_right fun _ => mapM_eq_some_iff)
  rw [opened]
  constructor
  · rintro ⟨entries, decoded, each⟩
    cases json with
    | object members => exact .object (members?_object.1 decoded) each
    | _ => cases decoded
  · rintro ⟨keyed, each⟩
    exact ⟨_, members?_object.2 keyed, each⟩

inductive IsOptional {α : Type} (spells : α → Json → Prop) : Option α → Option Json → Prop
  | omitted : IsOptional spells none none
  | null : IsOptional spells none (some .null)
  | value {a : α} {json : Json} (spelled : spells a json) : IsOptional spells (some a) (some json)

theorem optional?_eq_some_iff {α : Type} {value? : Json → Option α} {spells : α → Json → Prop}
    (reads : ∀ json a, value? json = some a ↔ spells a json) (null : ∀ a, ¬spells a .null) {json? : Option Json}
    {value : Option α} : (json?.getD .null).optional? value? = some value ↔ IsOptional spells value json? := by
  constructor
  · intro found
    unfold optional? at found
    split at found
    · next missing =>
      cases found
      cases json? with
      | none => exact .omitted
      | some json =>
        obtain rfl : json = .null := missing
        exact .null
    · next present =>
      obtain ⟨a, read, rfl⟩ := Option.map_eq_some_iff.1 found
      cases json? with
      | none => exact absurd rfl present
      | some json => exact .value ((reads json a).1 read)
  · rintro (_ | _ | ⟨spelled⟩)
    · rfl
    · rfl
    · next a json =>
      have read := (reads json a).2 spelled
      cases json with
      | null => exact absurd spelled (null a)
      | _ => simp [optional?, read]

@[simp] theorem key?_escape (text : String) : key? (escape text.toList) = some text := by
  simp [key?, unescape?_escape]

theorem isText_ofText (text : String) : IsText text (ofText text) := .string (key?_escape text)

end Gridbook.Json

namespace Gridbook

/-- A lookup by name, in a list that has each value under its name. -/
theorem find?_name_iff {α : Type} {all : List α} {name : α → String}
    (known : ∀ a, (all.find? fun b => name b = name a) = some a) (text : String) (a : α) :
    (all.find? fun b => name b = text) = some a ↔ text = name a := by
  constructor
  · intro found
    have same : name a = text := by simpa using List.find?_some found
    exact same.symm
  · rintro rfl
    exact known a

theorem Panel.ofName?_iff (text : String) (p : Panel) : ofName? text = some p ↔ text = p.name :=
  find?_name_iff (by intro a; cases a <;> rfl) text p

theorem Side.ofName?_iff (text : String) (side : Side) : ofName? text = some side ↔ text = side.name :=
  find?_name_iff (by intro a; cases a <;> rfl) text side

theorem DashboardKind.ofName?_iff (text : String) (kind : DashboardKind) : ofName? text = some kind ↔ text = kind.name :=
  find?_name_iff (by intro a; cases a <;> rfl) text kind

namespace Wire

/-- The documents that spell a value, and no others, are read as it. -/
class Grammar (α : Type) [Wire α] where
  Spells : α → Json → Prop
  ofJson?_iff {json : Json} {value : α} : ofJson? json = some value ↔ Spells value json

open Grammar (Spells)

/-- A record of two fields is read by reading each. -/
theorem record_iff {α β γ : Type} {fields : List String} {first? : Json → Option α} {second? : Json → Option β}
    {make : α → β → γ} {first : γ → α} {second : γ → β} {spellsFirst : α → Json → Prop} {spellsSecond : β → Json → Prop}
    (made : ∀ x y value, make x y = value ↔ x = first value ∧ y = second value)
    (readsFirst : ∀ json x, first? json = some x ↔ spellsFirst x json)
    (readsSecond : ∀ json y, second? json = some y ↔ spellsSecond y json) {json : Json} {value : γ} :
    (match Json.RecordShape.values? ⟨fields, false⟩ json with
      | some [some a, some b] => do return make (← first? a) (← second? b)
      | _ => none) = some value ↔
      ∃ a b, Json.IsRecord fields [some a, some b] json ∧ spellsFirst (first value) a ∧ spellsSecond (second value) b := by
  simp only [← Json.values?_eq_some_iff, ← readsFirst, ← readsSecond]
  constructor
  · intro found
    split at found
    · next a b values =>
      simp only [Option.bind_eq_bind, Option.bind_eq_some_iff, Option.pure_def, Option.some.injEq, made] at found
      obtain ⟨_, one, _, other, rfl, rfl⟩ := found
      exact ⟨a, b, values, one, other⟩
    · cases found
  · rintro ⟨a, b, values, one, other⟩
    simp [values, one, other, made]

@[reducible] def Grammar.ofNames {α : Type} {name : α → String} {ofName? : String → Option α}
    (named : ∀ text value, ofName? text = some value ↔ text = name value) : @Grammar α (Wire.ofNames name ofName?) :=
  @Grammar.mk α (Wire.ofNames name ofName?) (fun value json => Json.IsName (name value) json)
    (Json.variant?_eq_some_iff named)

instance : Grammar Side := .ofNames Side.ofName?_iff
instance : Grammar DashboardKind := .ofNames DashboardKind.ofName?_iff

instance : Grammar DashboardItem where
  Spells item json := ∃ name kind, Json.IsRecord ["name", "kind"] [some name, some kind] json ∧
    Json.IsText item.name name ∧ Spells item.kind kind
  ofJson?_iff := record_iff (by rintro _ _ ⟨⟩; simp) (fun _ _ => Json.text?_eq_some_iff) fun _ _ => Grammar.ofJson?_iff

instance : Grammar SheetChange where
  Spells change json := ∃ sheet content, Json.IsRecord ["sheet_name", "content"] [some sheet, some content] json ∧
    Json.IsText change.sheet sheet ∧ Json.IsText change.content content
  ofJson?_iff := record_iff (by rintro _ _ ⟨⟩; simp) (fun _ _ => Json.text?_eq_some_iff) fun _ _ => Json.text?_eq_some_iff

instance : Grammar Docking where
  Spells docking json := ∃ side active, Json.IsRecord ["position", "is_active"] [some side, some active] json ∧
    Spells docking.side side ∧ active = .bool docking.active
  ofJson?_iff := record_iff (by rintro _ _ ⟨⟩; simp) (fun _ _ => Grammar.ofJson?_iff) fun _ _ => Json.bool?_eq_some_iff

/-- Panels by name; of a panel that is listed twice the last docking counts. -/
def SpellsPanels (docking? : Panel → Option Docking) (json : Json) : Prop :=
  ∃ listed, Json.IsMap Panel.name Spells listed json ∧
    ∀ p, docking? p = (listed.filter (·.1 = p)).getLast?.map (·.2)

theorem panelsOfJson?_iff {json : Json} {docking? : Panel → Option Docking} :
    panelsOfJson? json = some docking? ↔ SpellsPanels docking? json := by
  have last (listed : List (Panel × Docking)) (p : Panel) :
      listed.reverse.find? (fun entry => entry.1 = p) = (listed.filter (·.1 = p)).getLast? := by
    rw [← List.head?_filter, List.filter_reverse, List.head?_reverse]
  have opened : panelsOfJson? json = some docking? ↔
      ∃ listed, json.mapOf? Panel.ofName? ofJson? = some listed ∧
        (fun p => (listed.reverse.find? fun entry => entry.1 = p).map (·.2)) = docking? := by
    unfold panelsOfJson?
    simp only [Option.bind_eq_bind, Option.bind_eq_some_iff, Option.pure_def, Option.some.injEq]
  rw [opened]
  refine exists_congr fun listed => and_congr ?_ ?_
  · exact Json.mapOf?_eq_some_iff Panel.ofName?_iff fun _ _ => Grammar.ofJson?_iff
  · rw [eq_comm, funext_iff]
    simp only [last]

instance : Grammar Layout where
  Spells layout json := ∃ panels labelsHidden split side,
    Json.IsRecord layoutShape.fields [some panels, some labelsHidden, some split, side] json ∧
      SpellsPanels layout.docking? panels ∧ labelsHidden = .bool layout.labelsHidden ∧ split = .bool layout.split ∧
      Json.IsOptional Spells layout.expandedSide side
  ofJson?_iff {json layout} := by
    have values {vs : List (Option Json)} : layoutShape.values? json = some vs ↔ Json.IsRecord layoutShape.fields vs json :=
      Json.values?_eq_some_iff
    have reads (json : Json) (side : Side) : ofJson? json = some side ↔ Spells side json := Grammar.ofJson?_iff
    have unnamed (side : Side) : ¬Spells side .null := fun spelled => by
      have name : Json.IsName side.name .null := spelled
      cases name
    have optional {json? : Option Json} {side? : Option Side} :
        (json?.getD .null).optional? ofJson? = some side? ↔ Json.IsOptional Spells side? json? :=
      Json.optional?_eq_some_iff reads unnamed
    simp only [← values, ← panelsOfJson?_iff, ← Json.bool?_eq_some_iff, ← optional]
    constructor
    · intro found
      simp only [ofJson?] at found
      split at found
      · next panels labelsHidden split side given =>
        simp only [Option.bind_eq_bind, Option.bind_eq_some_iff, Option.pure_def, Option.some.injEq] at found
        obtain ⟨_, first, _, second, _, third, _, fourth, rfl⟩ := found
        exact ⟨panels, labelsHidden, split, side, given, first, second, third, fourth⟩
      · cases found
    · rintro ⟨panels, labelsHidden, split, side, given, first, second, third, fourth⟩
      simp only [ofJson?] at fourth ⊢
      simp [given, first, second, third, fourth]

theorem lawful_ofNames {α : Type} {name : α → String} {ofName? : String → Option α}
    (named : ∀ text value, ofName? text = some value ↔ text = name value) : @LawfulWire α (ofNames name ofName?) :=
  @LawfulWire.mk α (ofNames name ofName?) (fun _ => .string _) fun _ =>
    (Json.variant?_eq_some_iff named).2 (.string (Json.key?_escape _))

instance : LawfulWire Side := lawful_ofNames Side.ofName?_iff
instance : LawfulWire DashboardKind := lawful_ofNames DashboardKind.ofName?_iff

theorem spells_toJson {α : Type} [Wire α] [Grammar α] [LawfulWire α] (value : α) : Spells value (toJson value) :=
  Grammar.ofJson?_iff.1 (LawfulWire.ofJson?_toJson value)

instance : LawfulWire DashboardItem where
  legal item := Json.legal_record (by simp)
  ofJson?_toJson item := by
    apply Grammar.ofJson?_iff.2
    exact ⟨_, _, Json.isRecord_record (by simp), Json.isText_ofText item.name, spells_toJson item.kind⟩

instance : LawfulWire Docking where
  legal docking := Json.legal_record (by simp)
  ofJson?_toJson docking := by
    apply Grammar.ofJson?_iff.2
    exact ⟨_, _, Json.isRecord_record (by simp), spells_toJson docking.side, rfl⟩

def listed (docking? : Panel → Option Docking) (ps : List Panel) : List (Panel × Docking) :=
  ps.filterMap fun p => (docking? p).map fun docking => (p, docking)

theorem panelsToJson_eq (docking? : Panel → Option Docking) :
    panelsToJson docking? = .record ((listed docking? Panel.all).map fun entry => (entry.1.name, toJson entry.2)) := by
  unfold panelsToJson listed
  rw [List.map_filterMap]
  congr 2
  funext p
  cases docking? p <;> rfl

theorem getLast?_listed (docking? : Panel → Option Docking) (ps : List Panel) (p : Panel) :
    ((listed docking? ps).filter (·.1 = p)).getLast?.map (·.2) = if p ∈ ps then docking? p else none := by
  induction ps using List.reverseRecOn with
  | nil => rfl
  | append_singleton ps q ih =>
    unfold listed at ih ⊢
    rw [List.filterMap_append, List.filter_append, List.getLast?_append]
    by_cases same : q = p
    · subst same
      cases found : docking? q with
      | none => simpa [found] using ih
      | some docking => simp [found]
    · have other : p ≠ q := fun equal => same equal.symm
      cases found : docking? q with
      | none => simpa [found, other] using ih
      | some docking => simpa [found, same, other] using ih

theorem spellsPanels_toJson (docking? : Panel → Option Docking) : SpellsPanels docking? (panelsToJson docking?) := by
  have every (p : Panel) : p ∈ Panel.all := by cases p <;> decide
  rw [panelsToJson_eq]
  refine ⟨listed docking? Panel.all, .object (Json.members?_object.1 (Json.members?_record _)) ?_, fun p => ?_⟩
  · rw [List.forall₂_map_left_iff, List.forall₂_same]
    intro entry _
    exact ⟨rfl, spells_toJson entry.2⟩
  · rw [getLast?_listed, if_pos (every p)]

theorem legal_panelsToJson (docking? : Panel → Option Docking) : (panelsToJson docking?).Legal := by
  rw [panelsToJson_eq]
  refine Json.legal_record ?_
  intro member inside
  obtain ⟨entry, -, rfl⟩ := List.mem_map.1 inside
  exact LawfulWire.legal entry.2

instance : LawfulWire Layout where
  legal layout := by
    have side : (Json.ofOption toJson layout.expandedSide).Legal := by
      cases layout.expandedSide with
      | none => exact .null
      | some side => exact LawfulWire.legal side
    exact Json.legal_record (by simp [legal_panelsToJson, side])
  ofJson?_toJson layout := by
    apply Grammar.ofJson?_iff.2
    refine ⟨_, _, _, some (.ofOption toJson layout.expandedSide), Json.isRecord_record (by simp [layoutShape]),
      spellsPanels_toJson layout.docking?, rfl, rfl, ?_⟩
    cases layout.expandedSide with
    | none => exact .null
    | some side => exact .value (spells_toJson side)

structure RoundTrips (α : Type) [Wire α] [Grammar α] : Prop where
  written : ∀ value : α, read? (write value) = some value
  accepted : ∀ (text : String) (value : α),
    read? text = some value ↔ ∃ json, Json.read text = some json ∧ Spells value json
  /-- Whichever spelling was read, writing settles on one. -/
  settled : ∀ (text : String) (value : α), read? text = some value →
    read? (write value) = some value ∧ (read? (write value) : Option α).map write = some (write value)

theorem roundTrips (α : Type) [Wire α] [Grammar α] [LawfulWire α] : RoundTrips α where
  written := read?_write
  accepted text value := by
    rw [read?, Option.bind_eq_some_iff]
    exact exists_congr fun json => and_congr_right fun _ => Grammar.ofJson?_iff
  settled text value _ := by
    rw [read?_write]
    exact ⟨rfl, rfl⟩

/-- Layouts, items of the dashboard and changes of sheets are read back from what is written for them. The texts that are
read as a value are those of its spellings, and from each of them writing gives the one text. -/
theorem exchanged_roundTrip : RoundTrips Layout ∧ RoundTrips DashboardItem ∧ RoundTrips SheetChange :=
  ⟨roundTrips Layout, roundTrips DashboardItem, roundTrips SheetChange⟩

/-- A layout with its fields in another order, one field that is unknown and one that is left out, a panel that comes
twice, and dockings as arrays. -/
theorem exchanged_roundTrip_respelled :
    let text := "\x7b\"z\":0,\"panels\":\x7b\"chat\":[\"left\",true],\"chat\":[\x7b\"right\":null\x7d,false]\x7d," ++
      "\"panels_split_enabled\":true,\"collapsed_panels_text_hidden\":false\x7d"
    ∃ layout : Layout, read? text = some layout ∧
      (layout.docking? .chat, layout.docking? .inputs, layout.labelsHidden, layout.split, layout.expandedSide) =
        (some ⟨.right, false⟩, none, false, true, none) ∧
      read? (write layout) = some layout ∧ (read? (write layout) : Option Layout).map write = some (write layout) := by
  intro text
  have evaluated : (read? text : Option Layout).map (fun layout =>
      (layout.docking? .chat, layout.docking? .inputs, layout.labelsHidden, layout.split, layout.expandedSide)) =
        some (some ⟨.right, false⟩, none, false, true, none) := by decide +kernel
  obtain ⟨layout, found, fields⟩ := Option.map_eq_some_iff.1 evaluated
  exact ⟨layout, found, fields, exchanged_roundTrip.1.settled text layout found⟩

end Wire
end Gridbook
