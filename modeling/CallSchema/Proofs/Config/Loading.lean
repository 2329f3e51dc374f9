import CallSchema.Config
import CallSchema.Proofs.Run
import CallSchema.Proofs.Value.Writing
import CallSchema.Schema.Resolve

/-!
# What loading accepts, and what it reports

Configuration data is well formed when it asks for one schema, or for a list of at least one, and says of
strict matching no more than yes or no (`Asks`).  Such data is loaded, and what comes of it is a read-only
copy of the schemas in it, which no resolution can tell from them.  All other data is refused for one
reason (`Refusal`): in schemas it is the first entry that offends, in the order of the list and of the
entries of each record.  Data always is of one kind or the other (`asks_or_refusal`), so loading is told
by the two (`load_tells_wellFormed`).

A refusal quotes a name that is no text.  Where that name cannot be written, loading does not end in a
refusal but in the fault of writing it (`load_of_unwritten_name`), and this is the only other fault.
-/

namespace CallSchema
namespace Config

/-! ## Well-formed data -/

/-- Data is a record with certain entries, and not just a view of one. -/
def Owns (data : Value) (entries : List (Value × Value)) : Prop :=
  ∃ kind, kind ≠ .readOnly ∧ data = .record kind entries

/-- An entry names an argument and gives it a type expression, which is not blank. -/
def IsTextEntry (entry : Value × Value) : Prop :=
  ∃ name text, entry = (.str name, .str text) ∧ Text.isBlank text = false

/-- Data is a record of arguments with their type expressions. -/
def IsSchema (data : Value) : Prop :=
  ∃ entries, Owns data entries ∧ ∀ entry ∈ entries, IsTextEntry entry

/-- Data is a schema or, if it should be a list, a list of at least one. -/
def IsForm : Bool → Value → Prop
  | false, data => IsSchema data
  | true, data => ∃ items, data = .seq .list items ∧ items ≠ [] ∧ ∀ item ∈ items, IsSchema item

/-- The entries of a configuration hold a schema or, under another name, a list, but not both. -/
def HasForm (entries : List (Value × Value)) : Bool → Value → Prop
  | false, raw => field? "schema" entries = some raw ∧ field? "schemas" entries = none
  | true, raw => field? "schema" entries = none ∧ field? "schemas" entries = some raw

/-- The entries of a configuration ask for strict matching, or do not. -/
def AsksStrict (entries : List (Value × Value)) (strict : Bool) : Prop :=
  (field? "strict" entries = none ∧ strict = false) ∨ field? "strict" entries = some (.bool strict)

/-- Well-formed data asks for a schema, or a list of them, and for strict matching or not. -/
def Asks (data raw : Value) (isList strict : Bool) : Prop :=
  ∃ entries, Owns data entries ∧ HasForm entries isList raw ∧ AsksStrict entries strict ∧
    IsForm isList raw

/-! ## Offences -/

/-- What comes of an entry of the schema at a path that is wrong. -/
inductive EntryOffence (path : SchemaPath) : Value × Value → Fault → Prop where
  | name {name type : Value} {quoted : String} (h : ∀ text, name ≠ .str text)
      (hquoted : name.quoted = .ok quoted) :
      EntryOffence path (name, type) (.config (.nameNotText path quoted))
  /-- The name should be reported and cannot be written. -/
  | unwritable {name type : Value} {fault : Fault} (h : ∀ text, name ≠ .str text)
      (hquoted : name.quoted = .error fault) : EntryOffence path (name, type) fault
  | type {name : String} {type : Value} (h : ∀ text, type = .str text → Text.isBlank text = true) :
      EntryOffence path (.str name, type) (.config (.blankExpression path name))

/-- What is wrong first with the schema at a path. -/
inductive SchemaOffence (path : SchemaPath) (data : Value) : Fault → Prop where
  | notRecord (h : ∀ entries, ¬ Owns data entries) :
      SchemaOffence path data (.config (.schemaNotRecord path data.kind))
  | entry {before after : List (Value × Value)} {entry : Value × Value} {fault : Fault}
      (hdata : Owns data (before ++ entry :: after)) (hbefore : ∀ other ∈ before, IsTextEntry other)
      (hentry : EntryOffence path entry fault) : SchemaOffence path data fault

/-- What is wrong first with a schema or a list of schemas. -/
inductive FormOffence : Bool → Value → Fault → Prop where
  | single {data : Value} {fault : Fault} (h : SchemaOffence .single data fault) :
      FormOffence false data fault
  | notList {data : Value} (h : ∀ items, data ≠ .seq .list items) :
      FormOffence true data (.config (.schemasNotList data.kind))
  | empty : FormOffence true (.seq .list []) (.config .schemasEmpty)
  | item {before after : List Value} {item : Value} {fault : Fault}
      (hbefore : ∀ other ∈ before, IsSchema other)
      (hitem : SchemaOffence (.nth before.length) item fault) :
      FormOffence true (.seq .list (before ++ item :: after)) fault

/-- Why data is refused.  What it asks for is looked at before schemas are. -/
inductive Refusal (data : Value) : Fault → Prop where
  | notRecord (h : ∀ entries, ¬ Owns data entries) : Refusal data (.config (.notRecord data.kind))
  | bothForms {entries : List (Value × Value)} {single many : Value} (hdata : Owns data entries)
      (hsingle : field? "schema" entries = some single)
      (hmany : field? "schemas" entries = some many) : Refusal data (.config .bothForms)
  | neitherForm {entries : List (Value × Value)} (hdata : Owns data entries)
      (hsingle : field? "schema" entries = none) (hmany : field? "schemas" entries = none) :
      Refusal data (.config .neitherForm)
  | strictNotBool {entries : List (Value × Value)} {isList : Bool} {raw got : Value}
      (hdata : Owns data entries) (hform : HasForm entries isList raw)
      (hstrict : field? "strict" entries = some got) (hgot : ∀ strict, got ≠ .bool strict) :
      Refusal data (.config (.strictNotBool got.kind))
  | form {entries : List (Value × Value)} {isList strict : Bool} {raw : Value} {fault : Fault}
      (hdata : Owns data entries) (hform : HasForm entries isList raw)
      (hstrict : AsksStrict entries strict) (hraw : FormOffence isList raw fault) :
      Refusal data fault

/-- The schemas that data holds, where it should be a list or not. -/
def schemasIn : Bool → Value → List Value
  | false, raw => [raw]
  | true, .seq .list items => items
  | true, _ => []

/-- A schema of a configuration has an entry of a name. -/
def Names (data name : Value) : Prop :=
  ∃ entries isList raw, Owns data entries ∧ HasForm entries isList raw ∧
    ∃ schema ∈ schemasIn isList raw, ∃ fields type, Owns schema fields ∧ (name, type) ∈ fields

variable {data raw item : Value} {entries : List (Value × Value)} {entry : Value × Value}
  {path : SchemaPath} {fault : Fault} {isList strict : Bool} {items : List Value}

theorem ownEntries?_eq_some_iff : ownEntries? data = some entries ↔ Owns data entries := by
  unfold ownEntries?
  split
  · simp [Owns]
  · simp [Owns]
  · rename_i hplain hordered
    refine iff_of_false (by simp) ?_
    rintro ⟨kind, hkind, rfl⟩
    cases kind with
    | plain => exact hplain _ rfl
    | ordered => exact hordered _ rfl
    | readOnly => exact hkind rfl

theorem ownEntries?_eq_none_iff : ownEntries? data = none ↔ ∀ entries, ¬ Owns data entries := by
  simp only [← ownEntries?_eq_some_iff, Option.eq_none_iff_forall_ne_some, ne_eq]

/-! ## Fields -/

/-- A field as an entry of a record. -/
def entriesOfFields (fields : TextFields) : List (Value × Value) :=
  fields.map fun field => (.str field.1, .str field.2)

theorem isTextEntry_or_offence (path : SchemaPath) (entry : Value × Value) :
    IsTextEntry entry ∨ ∃ fault, EntryOffence path entry fault := by
  obtain ⟨name, type⟩ := entry
  by_cases hname : ∃ text, name = .str text
  · obtain ⟨name, rfl⟩ := hname
    by_cases htype : ∃ text, type = .str text ∧ Text.isBlank text = false
    · obtain ⟨text, rfl, hblank⟩ := htype
      exact Or.inl ⟨name, text, rfl, hblank⟩
    · refine Or.inr ⟨_, .type fun text h => ?_⟩
      rw [← Bool.not_eq_false]
      exact fun hblank => htype ⟨text, h, hblank⟩
  · cases hquoted : name.quoted with
    | ok quoted => exact Or.inr ⟨_, .name (not_exists.mp hname) hquoted⟩
    | error fault => exact Or.inr ⟨fault, .unwritable (not_exists.mp hname) hquoted⟩

theorem loadField_of_isTextEntry (path : SchemaPath) (h : IsTextEntry entry) :
    ∃ field, loadField path entry = .ok field ∧ entry = (.str field.1, .str field.2) := by
  obtain ⟨name, text, rfl, hblank⟩ := h
  exact ⟨(name, text), if_neg (by simp [hblank]), rfl⟩

theorem loadField_of_not_text (path : SchemaPath) {name : Value} (type : Value)
    (h : ∀ text, name ≠ .str text) : loadField path (name, type) =
      name.quoted >>= fun quoted => .error (.config (.nameNotText path quoted)) := by
  cases name with
  | str text => exact absurd rfl (h text)
  | _ => rfl

theorem loadField_of_offence (h : EntryOffence path entry fault) :
    loadField path entry = .error fault := by
  cases h with
  | @name name type quoted h hquoted => rw [loadField_of_not_text path type h, hquoted]; rfl
  | @unwritable name type _ h hquoted => rw [loadField_of_not_text path type h, hquoted]; rfl
  | @type name type h =>
      cases type with
      | str text => exact if_pos (h text rfl)
      | _ => rfl

theorem loadFields_of_isTextEntry (path : SchemaPath)
    (h : ∀ entry ∈ entries, IsTextEntry entry) :
    ∃ fields, loadFields path entries = .ok fields ∧ entries = entriesOfFields fields := by
  induction entries with
  | nil => exact ⟨[], rfl, rfl⟩
  | cons entry entries ih =>
      obtain ⟨hentry, hentries⟩ := List.forall_mem_cons.mp h
      obtain ⟨field, hfield, rfl⟩ := loadField_of_isTextEntry path hentry
      obtain ⟨fields, hfields, rfl⟩ := ih hentries
      refine ⟨field :: fields, ?_, rfl⟩
      rw [loadFields, hfield, hfields]
      rfl

/-- Entries in front of the first one that offends do not show in the fault. -/
theorem loadFields_of_offence {before after : List (Value × Value)}
    (hbefore : ∀ other ∈ before, IsTextEntry other) (h : EntryOffence path entry fault) :
    loadFields path (before ++ entry :: after) = .error fault := by
  induction before with
  | nil =>
      rw [List.nil_append, loadFields, loadField_of_offence h]
      rfl
  | cons other before ih =>
      obtain ⟨hother, hbefore⟩ := List.forall_mem_cons.mp hbefore
      obtain ⟨field, hfield, -⟩ := loadField_of_isTextEntry path hother
      rw [List.cons_append, loadFields, hfield, ih hbefore]
      rfl

/-- Either all of a list is good, or there is a first item that is not. -/
theorem forall_or_exists_first {α : Type} (Good : α → Prop) (items : List α) :
    (∀ item ∈ items, Good item) ∨ ∃ before item after, items = before ++ item :: after ∧
      (∀ other ∈ before, Good other) ∧ ¬ Good item := by
  induction items with
  | nil => exact Or.inl (List.forall_mem_nil _)
  | cons first items ih =>
      by_cases hfirst : Good first
      · rcases ih with hall | ⟨before, item, after, rfl, hbefore, hitem⟩
        · exact Or.inl (List.forall_mem_cons.mpr ⟨hfirst, hall⟩)
        · exact Or.inr ⟨first :: before, item, after, rfl,
            List.forall_mem_cons.mpr ⟨hfirst, hbefore⟩, hitem⟩
      · exact Or.inr ⟨[], first, items, rfl, List.forall_mem_nil _, hfirst⟩

/-! ## Schemas -/

/-- A read-only copy of a record. -/
def readOnlyCopy : Value → Value
  | .record _ entries => .record .readOnly entries
  | value => value

theorem readOnlyCopy_of_owns (h : Owns data entries) :
    readOnlyCopy data = .record .readOnly entries := by
  obtain ⟨kind, -, rfl⟩ := h
  rfl

theorem isSchema_or_offence (path : SchemaPath) (data : Value) :
    IsSchema data ∨ ∃ fault, SchemaOffence path data fault := by
  by_cases hdata : ∃ entries, Owns data entries
  · obtain ⟨entries, hdata⟩ := hdata
    rcases forall_or_exists_first IsTextEntry entries with
      hall | ⟨before, entry, after, rfl, hbefore, hentry⟩
    · exact Or.inl ⟨entries, hdata, hall⟩
    · obtain ⟨fault, hfault⟩ := (isTextEntry_or_offence path entry).resolve_left hentry
      exact Or.inr ⟨fault, .entry hdata hbefore hfault⟩
  · exact Or.inr ⟨_, .notRecord (not_exists.mp hdata)⟩

theorem loadSchema_of_isSchema (path : SchemaPath) (h : IsSchema data) :
    ∃ fields, loadSchema path data = .ok fields ∧ recordOfFields fields = readOnlyCopy data := by
  obtain ⟨entries, hdata, hentries⟩ := h
  obtain ⟨fields, hfields, rfl⟩ := loadFields_of_isTextEntry path hentries
  refine ⟨fields, ?_, (readOnlyCopy_of_owns hdata).symm⟩
  rw [loadSchema, ownEntries?_eq_some_iff.mpr hdata]
  exact hfields

theorem loadSchema_of_offence (h : SchemaOffence path data fault) :
    loadSchema path data = .error fault := by
  cases h with
  | notRecord h => rw [loadSchema, ownEntries?_eq_none_iff.mpr h]
  | entry hdata hbefore hentry =>
      rw [loadSchema, ownEntries?_eq_some_iff.mpr hdata]
      exact loadFields_of_offence hbefore hentry

theorem loadSchemas_of_isSchema (index : Nat) (h : ∀ item ∈ items, IsSchema item) :
    ∃ schemas, loadSchemas index items = .ok schemas ∧
      schemas.map recordOfFields = items.map readOnlyCopy := by
  induction items generalizing index with
  | nil => exact ⟨[], rfl, rfl⟩
  | cons item items ih =>
      obtain ⟨hitem, hitems⟩ := List.forall_mem_cons.mp h
      obtain ⟨fields, hfields, hcopy⟩ := loadSchema_of_isSchema (.nth index) hitem
      obtain ⟨schemas, hschemas, hcopies⟩ := ih (index + 1) hitems
      refine ⟨fields :: schemas, ?_, by rw [List.map_cons, List.map_cons, hcopy, hcopies]⟩
      rw [loadSchemas, hfields, hschemas]
      rfl

/-- Schemas in front of the first one that offends only count for its index. -/
theorem loadSchemas_of_offence {index : Nat} {before after : List Value}
    (hbefore : ∀ other ∈ before, IsSchema other)
    (h : SchemaOffence (.nth (index + before.length)) item fault) :
    loadSchemas index (before ++ item :: after) = .error fault := by
  induction before generalizing index with
  | nil =>
      rw [List.length_nil, Nat.add_zero] at h
      rw [List.nil_append, loadSchemas, loadSchema_of_offence h]
      rfl
  | cons other before ih =>
      obtain ⟨hother, hbefore⟩ := List.forall_mem_cons.mp hbefore
      obtain ⟨fields, hfields, -⟩ := loadSchema_of_isSchema (.nth index) hother
      rw [List.length_cons, Nat.add_comm before.length, ← Nat.add_assoc] at h
      rw [List.cons_append, loadSchemas, hfields, ih hbefore h]
      rfl

/-! ## One schema or a list -/

/-- A read-only copy of a schema, or a list of such copies. -/
def schemaCopy : Value → Value
  | .seq kind items => .seq kind (items.map readOnlyCopy)
  | value => readOnlyCopy value

/-- Loads the one schema or the list. -/
def loadForm : Bool → Value → Except Fault ConfigForm
  | false, raw => .single <$> loadSchema .single raw
  | true, raw => .many <$> loadList raw

theorem loadEntries_of_hasForm (h : HasForm entries isList raw) :
    loadEntries entries = do
      let strict ← loadStrict (field? "strict" entries)
      let form ← loadForm isList raw
      return ⟨form, strict⟩ := by
  cases isList with
  | false =>
      obtain ⟨hsingle, hmany⟩ := h
      simp [loadEntries, hsingle, hmany, loadForm]
  | true =>
      obtain ⟨hsingle, hmany⟩ := h
      simp [loadEntries, hsingle, hmany, loadForm]

theorem isForm_or_offence (isList : Bool) (raw : Value) :
    IsForm isList raw ∨ ∃ fault, FormOffence isList raw fault := by
  cases isList with
  | false =>
      rcases isSchema_or_offence .single raw with hschema | ⟨fault, hfault⟩
      · exact Or.inl hschema
      · exact Or.inr ⟨fault, .single hfault⟩
  | true =>
      by_cases hlist : ∃ items, raw = .seq .list items
      · obtain ⟨items, rfl⟩ := hlist
        rcases forall_or_exists_first IsSchema items with
          hall | ⟨before, item, after, rfl, hbefore, hitem⟩
        · by_cases hempty : items = []
          · subst hempty
            exact Or.inr ⟨_, .empty⟩
          · exact Or.inl ⟨items, rfl, hempty, hall⟩
        · obtain ⟨fault, hfault⟩ :=
            (isSchema_or_offence (.nth before.length) item).resolve_left hitem
          exact Or.inr ⟨fault, .item hbefore hfault⟩
      · exact Or.inr ⟨_, .notList (not_exists.mp hlist)⟩

theorem loadForm_of_isForm (h : IsForm isList raw) :
    ∃ form, loadForm isList raw = .ok form ∧
      ∀ strict, (Config.mk form strict).schema = schemaCopy raw ∧
        (Config.mk form strict).isList = isList := by
  cases isList with
  | false =>
      obtain ⟨fields, hfields, hcopy⟩ := loadSchema_of_isSchema .single h
      refine ⟨.single fields, by rw [loadForm, hfields]; rfl, fun strict => ⟨?_, rfl⟩⟩
      obtain ⟨entries, ⟨kind, -, rfl⟩, -⟩ := h
      exact hcopy
  | true =>
      obtain ⟨items, rfl, hne, hitems⟩ := h
      obtain ⟨schemas, hschemas, hcopies⟩ := loadSchemas_of_isSchema 0 hitems
      have hlist : loadList (.seq .list items) = .ok schemas := by
        cases items with
        | nil => exact absurd rfl hne
        | cons item items => exact hschemas
      refine ⟨.many schemas, by rw [loadForm, hlist]; rfl, fun strict => ⟨?_, rfl⟩⟩
      exact congrArg (Value.seq .list) hcopies

theorem loadForm_of_offence (h : FormOffence isList raw fault) :
    loadForm isList raw = .error fault := by
  cases h with
  | single h =>
      rw [loadForm, loadSchema_of_offence h]
      rfl
  | notList h =>
      have hlist : loadList raw = .error (.config (.schemasNotList raw.kind)) := by
        unfold loadList
        split
        · exact absurd rfl (h _)
        · exact absurd rfl (h _)
        · rfl
      rw [loadForm, hlist]
      rfl
  | empty => rfl
  | @item before after item fault hbefore hitem =>
      rw [← Nat.zero_add before.length] at hitem
      have hlist : loadList (.seq .list (before ++ item :: after)) = .error fault := by
        rw [← loadSchemas_of_offence hbefore hitem, loadList]
        simp
      rw [loadForm, hlist]
      rfl

/-! ## Configurations -/

theorem loadStrict_of_asksStrict (h : AsksStrict entries strict) :
    loadStrict (field? "strict" entries) = .ok strict := by
  rcases h with ⟨hnone, rfl⟩ | hsome
  · rw [hnone]
    rfl
  · rw [hsome]
    rfl

theorem asksStrict_or_not_bool (entries : List (Value × Value)) :
    (∃ strict, AsksStrict entries strict) ∨
      ∃ got, field? "strict" entries = some got ∧ ∀ strict, got ≠ .bool strict := by
  cases hfield : field? "strict" entries with
  | none => exact Or.inl ⟨false, Or.inl ⟨hfield, rfl⟩⟩
  | some got =>
      by_cases hbool : ∃ strict, got = .bool strict
      · obtain ⟨strict, rfl⟩ := hbool
        exact Or.inl ⟨strict, Or.inr hfield⟩
      · exact Or.inr ⟨got, rfl, not_exists.mp hbool⟩

theorem load_of_owns (h : Owns data entries) : load data = loadEntries entries := by
  rw [load, ownEntries?_eq_some_iff.mpr h]

/-- Data is well formed, or there is a reason to refuse it. -/
theorem asks_or_refusal (data : Value) :
    (∃ raw isList strict, Asks data raw isList strict) ∨ ∃ fault, Refusal data fault := by
  by_cases hdata : ∃ entries, Owns data entries
  · obtain ⟨entries, hdata⟩ := hdata
    have hforms : ∀ isList raw, HasForm entries isList raw →
        (∃ raw isList strict, Asks data raw isList strict) ∨ ∃ fault, Refusal data fault := by
      intro isList raw hform
      rcases asksStrict_or_not_bool entries with ⟨strict, hstrict⟩ | ⟨got, hgot, hbool⟩
      · rcases isForm_or_offence isList raw with hraw | ⟨fault, hfault⟩
        · exact Or.inl ⟨raw, isList, strict, entries, hdata, hform, hstrict, hraw⟩
        · exact Or.inr ⟨fault, .form hdata hform hstrict hfault⟩
      · exact Or.inr ⟨_, .strictNotBool hdata hform hgot hbool⟩
    cases hsingle : field? "schema" entries with
    | some single =>
        cases hmany : field? "schemas" entries with
        | some many => exact Or.inr ⟨_, .bothForms hdata hsingle hmany⟩
        | none => exact hforms false single ⟨hsingle, hmany⟩
    | none =>
        cases hmany : field? "schemas" entries with
        | some many => exact hforms true many ⟨hsingle, hmany⟩
        | none => exact Or.inr ⟨_, .neitherForm hdata hsingle hmany⟩
  · exact Or.inr ⟨_, .notRecord (not_exists.mp hdata)⟩

theorem load_of_asks (h : Asks data raw isList strict) :
    ∃ config, load data = .ok config ∧ config.schema = schemaCopy raw ∧ config.isList = isList ∧
      config.strict = strict := by
  obtain ⟨entries, hdata, hform, hstrict, hraw⟩ := h
  obtain ⟨form, hload, hcopy⟩ := loadForm_of_isForm hraw
  refine ⟨⟨form, strict⟩, ?_, (hcopy strict).1, (hcopy strict).2, rfl⟩
  rw [load_of_owns hdata, loadEntries_of_hasForm hform, loadStrict_of_asksStrict hstrict, hload]
  rfl

theorem load_of_refusal (h : Refusal data fault) : load data = .error fault := by
  cases h with
  | notRecord h => rw [load, ownEntries?_eq_none_iff.mpr h]
  | bothForms hdata hsingle hmany => rw [load_of_owns hdata, loadEntries, hsingle, hmany]
  | neitherForm hdata hsingle hmany => rw [load_of_owns hdata, loadEntries, hsingle, hmany]
  | @strictNotBool entries isList raw got hdata hform hstrict hgot =>
      have hload : loadStrict (some got) = .error (.config (.strictNotBool got.kind)) := by
        unfold loadStrict
        split
        · contradiction
        · rename_i strict hsome
          exact absurd (Option.some.inj hsome) (hgot strict)
        · rename_i other _ hsome
          rw [Option.some.inj hsome]
      rw [load_of_owns hdata, loadEntries_of_hasForm hform, hstrict, hload]
      rfl
  | form hdata hform hstrict hraw =>
      rw [load_of_owns hdata, loadEntries_of_hasForm hform, loadStrict_of_asksStrict hstrict,
        loadForm_of_offence hraw]
      rfl

/-! ## Names that cannot be written -/

/-- What an offence comes to: a refusal, unless it is about a name that cannot be written. -/
def RefusesOr (offends : Value → Prop) (fault : Fault) : Prop :=
  fault.family? = some .config ∨
    (fault.FromText ∧ ∃ name, offends name ∧ (∀ text, name ≠ .str text) ∧ name.quoted = .error fault)

theorem RefusesOr.mono {offends offends' : Value → Prop} (h : RefusesOr offends fault)
    (hle : ∀ name, offends name → offends' name) : RefusesOr offends' fault :=
  h.imp id fun ⟨hfault, name, hname, htext, hquoted⟩ =>
    ⟨hfault, name, hle name hname, htext, hquoted⟩

theorem EntryOffence.refusesOr (h : EntryOffence path entry fault) :
    RefusesOr (· = entry.1) fault := by
  cases h with
  | name h hquoted => exact Or.inl rfl
  | unwritable h hquoted =>
      exact Or.inr ⟨Value.fromText_of_quoted _ hquoted, _, rfl, h, hquoted⟩
  | type h => exact Or.inl rfl

theorem SchemaOffence.refusesOr (h : SchemaOffence path data fault) :
    RefusesOr (fun name => ∃ fields type, Owns data fields ∧ (name, type) ∈ fields) fault := by
  cases h with
  | notRecord h => exact Or.inl rfl
  | @entry before after entry _ hdata hbefore hentry =>
      refine hentry.refusesOr.mono ?_
      rintro _ rfl
      exact ⟨_, entry.2, hdata, List.mem_append_right before List.mem_cons_self⟩

theorem FormOffence.refusesOr (h : FormOffence isList raw fault) :
    RefusesOr (fun name => ∃ schema ∈ schemasIn isList raw, ∃ fields type,
      Owns schema fields ∧ (name, type) ∈ fields) fault := by
  cases h with
  | single h => exact h.refusesOr.mono fun name hname => ⟨raw, List.mem_singleton.mpr rfl, hname⟩
  | notList h => exact Or.inl rfl
  | empty => exact Or.inl rfl
  | @item before after item _ hbefore hitem =>
      exact hitem.refusesOr.mono fun name hname =>
        ⟨item, List.mem_append_right before List.mem_cons_self, hname⟩

theorem Refusal.refusesOr (h : Refusal data fault) : RefusesOr (Names data) fault := by
  cases h with
  | notRecord h => exact Or.inl rfl
  | bothForms hdata hsingle hmany => exact Or.inl rfl
  | neitherForm hdata hsingle hmany => exact Or.inl rfl
  | strictNotBool hdata hform hstrict hgot => exact Or.inl rfl
  | form hdata hform hstrict hraw =>
      exact hraw.refusesOr.mono fun name hname => ⟨_, _, _, hdata, hform, hname⟩

/-! ## Copies -/

theorem ofValue_readOnlyCopy (value : Value) :
    Schema.ofValue (readOnlyCopy value) = Schema.ofValue value := by
  cases value with
  | record kind entries => simp [readOnlyCopy, Schema.ofValue]
  | _ => rfl

theorem ofItems_map_readOnlyCopy (items : List Value) :
    Schema.ofItems (items.map readOnlyCopy) = Schema.ofItems items := by
  induction items with
  | nil => rfl
  | cons item items ih => rw [List.map_cons, Schema.ofItems, ofValue_readOnlyCopy, ih, Schema.ofItems]

/-- A copy stands for the same schema. -/
theorem ofValue_schemaCopy (value : Value) :
    Schema.ofValue (schemaCopy value) = Schema.ofValue value := by
  cases value with
  | seq kind items => rw [schemaCopy, Schema.ofValue, ofItems_map_readOnlyCopy, Schema.ofValue]
  | record kind entries => exact ofValue_readOnlyCopy (.record kind entries)
  | _ => rfl

/-- Loading accepts well-formed data, and no other, and reports what is wrong with other data first: of the
entries of schemas it is the first one that offends, in the order of the list and of the entries.  The
report is a refusal, unless it should quote a name that cannot be written.

What is loaded from well-formed data is a read-only copy of the schema or of the list, with the same
entries in the same order.  It is a list if the data has one, also of one schema, and it is strict if the
data asks for that.  A resolution against it is the same run as one against the schema in the data. -/
theorem load_tells_wellFormed [Host] (data : Value) :
    ((∃ config, load data = .ok config) ↔ ∃ raw isList strict, Asks data raw isList strict) ∧
    (∀ fault, load data = .error fault ↔ Refusal data fault) ∧
    (∀ fault, load data = .error fault →
      fault.family? = some .config ∨
        (fault.FromText ∧ ∃ name, Names data name ∧ (∀ text, name ≠ .str text) ∧
          name.quoted = .error fault)) ∧
    ∀ raw isList strict, Asks data raw isList strict →
      ∃ config, load data = .ok config ∧ config.schema = schemaCopy raw ∧ config.isList = isList ∧
        config.strict = strict ∧
        ∀ (registry : Registry) (values : Value),
          (Schema.ofValue config.schema).resolve registry values config.strict =
            (Schema.ofValue raw).resolve registry values strict := by
  have hrefusal : ∀ fault, load data = .error fault → Refusal data fault := by
    intro fault hload
    rcases asks_or_refusal data with ⟨raw, isList, strict, hasks⟩ | ⟨other, hother⟩
    · obtain ⟨config, hconfig, -⟩ := load_of_asks hasks
      cases hload.symm.trans hconfig
    · obtain rfl : fault = other := Except.error.inj (hload.symm.trans (load_of_refusal hother))
      exact hother
  refine ⟨⟨?_, ?_⟩, fun fault => ⟨hrefusal fault, load_of_refusal⟩, ?_, ?_⟩
  · rintro ⟨config, hload⟩
    refine (asks_or_refusal data).resolve_right ?_
    rintro ⟨fault, hfault⟩
    cases hload.symm.trans (load_of_refusal hfault)
  · rintro ⟨raw, isList, strict, hasks⟩
    obtain ⟨config, hload, -⟩ := load_of_asks hasks
    exact ⟨config, hload⟩
  · exact fun fault hload => (hrefusal fault hload).refusesOr
  · intro raw isList strict hasks
    obtain ⟨config, hload, hschema, hlist, hstrict⟩ := load_of_asks hasks
    refine ⟨config, hload, hschema, hlist, hstrict, fun registry values => ?_⟩
    rw [hschema, hstrict, ofValue_schemaCopy]

/-- A schema for a number and, maybe, a text. -/
def loneSchema : Value :=
  .record .ordered [(.str "z", .str "num"), (.str "a", .str "opt str")]

/-- A list of one schema, to be matched strictly. -/
def loneListData : Value :=
  .record .plain [(.str "strict", .bool true), (.str "schemas", .seq .list [loneSchema])]

/-- A list of one schema stays a list, and the order of its entries is kept. -/
theorem load_tells_wellFormed_loneListData : letI := Host.quiet
    Asks loneListData (.seq .list [loneSchema]) true true ∧
    schemaCopy (.seq .list [loneSchema]) =
      .seq .list [.record .readOnly [(.str "z", .str "num"), (.str "a", .str "opt str")]] ∧
    ∃ config, load loneListData = .ok config ∧
      config.schema = schemaCopy (.seq .list [loneSchema]) ∧ config.isList = true ∧
      config.strict = true ∧
      ∀ (registry : Registry) (values : Value),
        (Schema.ofValue config.schema).resolve registry values config.strict =
          (Schema.ofValue (.seq .list [loneSchema])).resolve registry values true := by
  let _ := Host.quiet
  have hschema : IsSchema loneSchema := by
    refine ⟨_, ⟨.ordered, by decide, rfl⟩, List.forall_mem_cons.mpr ⟨?_, ?_⟩⟩
    · exact ⟨"z", "num", rfl, by decide⟩
    · exact List.forall_mem_singleton.mpr ⟨"a", "opt str", rfl, by decide⟩
  have hasks : Asks loneListData (.seq .list [loneSchema]) true true :=
    ⟨_, ⟨.plain, by decide, rfl⟩, ⟨rfl, rfl⟩, Or.inr rfl,
      ⟨[loneSchema], rfl, List.cons_ne_nil _ _, List.forall_mem_singleton.mpr hschema⟩⟩
  exact ⟨hasks, rfl, (load_tells_wellFormed loneListData).2.2.2 _ _ _ hasks⟩

/-- A schema whose only name is an integer that is not written out. -/
def longNumberData : Value :=
  .record .plain [(.str "schema", .record .plain [(.int digitBound, .str "str")])]

/-- Data that is not well formed is not always refused: the name that should be reported here cannot be
written, and the fault of writing it is none of the library's own. -/
theorem load_of_unwritten_name :
    (¬ ∃ raw isList strict, Asks longNumberData raw isList strict) ∧
    load longNumberData = .error .tooManyDigits ∧ Fault.tooManyDigits.family? = none := by
  have hload : load longNumberData = .error .tooManyDigits := by
    have hfields : Owns (.record .plain [(.int digitBound, .str "str")])
        ([] ++ (.int digitBound, .str "str") :: []) := ⟨.plain, by decide, rfl⟩
    have hform : HasForm [(.str "schema", .record .plain [(.int digitBound, .str "str")])] false
        (.record .plain [(.int digitBound, .str "str")]) := ⟨rfl, rfl⟩
    exact load_of_refusal (.form ⟨.plain, by decide, rfl⟩ hform (Or.inl ⟨rfl, rfl⟩)
      (.single (.entry hfields (List.forall_mem_nil _) (.unwritable nofun intText_digitBound))))
  refine ⟨?_, hload, rfl⟩
  rintro ⟨raw, isList, strict, hasks⟩
  obtain ⟨config, hconfig, -⟩ := load_of_asks hasks
  cases hload.symm.trans hconfig

/-- Of three offences, in two schemas, the first one is reported. -/
example : load (.record .plain [(.str "schemas", .seq .list [
    loneSchema,
    .record .plain [(.str "one", .str "num"), (.str "two", .str " "), (.int 3, .str "num")],
    .str "num"])]) = .error (.config (.blankExpression (.nth 1) "two")) := rfl

end Config
end CallSchema
