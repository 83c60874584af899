import Licensing.Settings.Reading

/-!
# Settings slot by slot

A section is read by going through its entries, each of which sets one field of a record and leaves
the others as they are. So the record can be taken apart again: a `Slot` is a field of the record
with its name and its reading, and it has what is read from the table under its name, or else what
it had at the start (`Slot.ReadBy.holds`). A `Section` is a section of the settings with its slots,
and carries the proof that its entries read them; `Section.all` are all there are, and the settings
are no more than these (`Section.ext`).

`Slot.ReadBy.holds` is an induction on the entries, in which an entry either sets the slot or keeps
it (`Entry.Sets`, `Entry.Keeps`). A setting that is added to the program is an entry and a slot, and
its two lemmas come from `Entry.sets_of` and `Entry.keeps_of`; nothing else changes.
-/

namespace Licensing.Settings

open Json (Fields)

variable {α β : Type}

/-! ### Reading a record field by field -/

/-- A field of a record: its name in a table, how it is read, and how it is got from the record. -/
structure Slot (α : Type) where
  name : String
  Value : Type
  read? : Json → Option Value
  get : α → Value

variable {slot : Slot α} {entry : Entry α} {entries : List (Entry α)} {fields : Fields}
  {start a b : α}

/-- What is read for the entry is what the slot has then. -/
def Entry.Sets (entry : Entry α) (slot : Slot α) : Prop :=
  entry.name = slot.name ∧
    ∀ value a b, entry.read value a = some b → slot.read? value = some (slot.get b)

/-- Whatever is read for the entry, the slot has what it had. -/
def Entry.Keeps (entry : Entry α) (slot : Slot α) : Prop :=
  ∀ value a b, entry.read value a = some b → slot.get b = slot.get a

/-- Some entry sets the slot, and any that does not leaves it as it is. -/
def Slot.ReadBy (slot : Slot α) (entries : List (Entry α)) : Prop :=
  (∃ entry ∈ entries, entry.Sets slot) ∧ ∀ entry ∈ entries, entry.Sets slot ∨ entry.Keeps slot

/-- The reading of a field that may be `null`. -/
def orNull (read? : Json → Option β) (value : Json) : Option (Option β) :=
  if value = .null then some none else (read? value).map some

section Lenses

variable {name : String} {read? : Json → Option β}

theorem Entry.sets_of {set : β → α → α} {get : α → β} (h : ∀ b a, get (set b a) = b) :
    (Entry.of name read? set).Sets ⟨name, β, read?, get⟩ := by
  refine ⟨rfl, fun value a a' hread ↦ ?_⟩
  obtain ⟨b, hb, rfl⟩ := Option.map_eq_some_iff.1 hread
  exact hb.trans (congrArg some (h b a).symm)

theorem Entry.keeps_of {set : β → α → α} (h : ∀ b a, slot.get (set b a) = slot.get a) :
    (Entry.of name read? set).Keeps slot := by
  intro value a a' hread
  obtain ⟨b, -, rfl⟩ := Option.map_eq_some_iff.1 hread
  exact h b a

/-- A field that may be `null` is a field that is read in another way. -/
theorem Entry.optional_eq_of (name : String) (read? : Json → Option β)
    (set : Option β → α → α) :
    Entry.optional name read? set = Entry.of name (orNull read?) set := by
  refine congrArg (Entry.mk name) (funext fun value ↦ funext fun a ↦ ?_)
  by_cases hnull : value = .null <;> simp [orNull, hnull, Function.comp_def]

end Lenses

/-- One entry read from a table. -/
def Entry.readFrom (fields : Fields) (a : α) (entry : Entry α) : Option α :=
  match fields.get? entry.name with
  | some value => entry.read value a
  | none => some a

theorem readSection_object (entries : List (Entry α)) (start : α) (fields : Fields) :
    readSection entries start (.object fields) = entries.foldlM (Entry.readFrom fields) start := rfl

/-- The slot has what is read from the table, and where the table has nothing for it, what it had at
the start. -/
def Slot.Holds (slot : Slot α) (fields : Fields) (start a : α) : Prop :=
  match fields.get? slot.name with
  | some value => slot.read? value = some (slot.get a)
  | none => slot.get a = slot.get start

theorem Entry.Sets.holds (h : entry.Sets slot) {value : Json}
    (hvalue : fields.get? slot.name = some value) (hread : entry.readFrom fields a = some b) :
    slot.Holds fields start b := by
  rw [Slot.Holds, hvalue]
  rw [Entry.readFrom, h.1, hvalue] at hread
  exact h.2 value a b hread

/-- An entry for another slot leaves this one as it was, and so does its own entry if the table has
nothing for it. -/
theorem Slot.Holds.readFrom (hstart : slot.Holds fields start a)
    (h : entry.Sets slot ∨ entry.Keeps slot) (hread : entry.readFrom fields a = some b) :
    slot.Holds fields start b := by
  rcases h with hsets | hkeeps
  · rcases hvalue : fields.get? slot.name with - | value
    · rw [Entry.readFrom, hsets.1, hvalue] at hread
      cases hread
      exact hstart
    · exact hsets.holds hvalue hread
  · have hsame : slot.get b = slot.get a := by
      rw [Entry.readFrom] at hread
      split at hread
      · exact hkeeps _ a b hread
      · cases hread
        rfl
    rwa [Slot.Holds, hsame]

theorem Slot.Holds.foldlM (h : ∀ entry ∈ entries, entry.Sets slot ∨ entry.Keeps slot)
    (hstart : slot.Holds fields start a)
    (hread : entries.foldlM (Entry.readFrom fields) a = some b) : slot.Holds fields start b := by
  induction entries generalizing a with
  | nil => cases hread; exact hstart
  | cons entry rest ih =>
    rw [List.foldlM_cons] at hread
    obtain ⟨next, hnext, hrest⟩ := Option.bind_eq_some_iff.1 hread
    exact ih (fun other hother ↦ h other (List.mem_cons_of_mem _ hother))
      (hstart.readFrom (h entry List.mem_cons_self) hnext) hrest

/-- **A table is read slot by slot.** -/
theorem Slot.ReadBy.holds (h : slot.ReadBy entries)
    (hread : readSection entries start (.object fields) = some a) :
    slot.Holds fields start a := by
  obtain ⟨⟨entry, hentry, hsets⟩, hothers⟩ := h
  rw [readSection_object] at hread
  rcases hvalue : fields.get? slot.name with - | value
  · refine Slot.Holds.foldlM hothers ?_ hread
    rw [Slot.Holds, hvalue]
  · obtain ⟨before, after, rfl⟩ := List.append_of_mem hentry
    rw [List.foldlM_append] at hread
    obtain ⟨first, -, hread⟩ := Option.bind_eq_some_iff.1 hread
    rw [List.foldlM_cons] at hread
    obtain ⟨second, hsecond, hread⟩ := Option.bind_eq_some_iff.1 hread
    exact Slot.Holds.foldlM
      (fun other hother ↦ hothers other (List.mem_append_right _ (List.mem_cons_of_mem _ hother)))
      (hsets.holds hvalue hsecond) hread

/-- Nothing is read from an empty table. -/
theorem readSection_empty (entries : List (Entry α)) (start : α) :
    readSection entries start (.object []) = some start := by
  rw [readSection_object]
  induction entries with
  | nil => rfl
  | cons entry rest ih => exact ih

/-- Of a table, only the fields of the entries are read. -/
theorem readSection_congr {others : Fields}
    (h : ∀ entry ∈ entries, fields.get? entry.name = others.get? entry.name) (start : α) :
    readSection entries start (.object fields) = readSection entries start (.object others) := by
  rw [readSection_object, readSection_object]
  induction entries generalizing start with
  | nil => rfl
  | cons entry rest ih =>
    rw [List.foldlM_cons, List.foldlM_cons, Entry.readFrom, Entry.readFrom,
      h entry List.mem_cons_self]
    refine congrArg _ (funext fun next ↦ ?_)
    exact ih (fun other hother ↦ h other (List.mem_cons_of_mem _ hother)) next

/-- A table is read if each of its fields can be. -/
theorem isSome_readSection
    (h : ∀ entry ∈ entries, ∀ value, fields.get? entry.name = some value →
      ∀ a, (entry.read value a).isSome = true) (start : α) :
    (readSection entries start (.object fields)).isSome = true := by
  rw [readSection_object]
  induction entries generalizing start with
  | nil => rfl
  | cons entry rest ih =>
    have hrest := ih fun other hother ↦ h other (List.mem_cons_of_mem _ hother)
    obtain ⟨next, hnext⟩ : ∃ next, entry.readFrom fields start = some next := by
      rw [Entry.readFrom]
      rcases hvalue : fields.get? entry.name with - | value
      · exact ⟨start, rfl⟩
      · exact Option.isSome_iff_exists.1 (h entry List.mem_cons_self value hvalue start)
    rw [List.foldlM_cons, hnext]
    exact hrest next

/-! ### All settings -/

/-- A section of the settings: its name, how it is got from the settings, the entries that read it,
and its slots, one for each entry and each read by the entries. -/
structure Section where
  name : String
  Content : Type
  get : Settings → Content
  entries : List (Entry Content)
  slots : List (Slot Content)
  names_eq : entries.map (·.name) = slots.map (·.name)
  readBy : ∀ slot ∈ slots, slot.ReadBy entries

namespace Section

open Entry (sets_of keeps_of optional_eq_of)
open Manner (lenient)

/-- Where the service listens. -/
@[simp] def server : Section where
  name := "server"
  Content := Server
  get := Settings.server
  entries := serverEntries lenient
  slots := [
    ⟨"host", _, lenient.text?, Server.host⟩,
    ⟨"port", _, lenient.natural? bound16, Server.port⟩,
    ⟨"shutdown_grace_secs", _, lenient.natural? bound64, Server.graceSeconds⟩]
  names_eq := rfl
  readBy := by simp [Slot.ReadBy, serverEntries, sets_of, keeps_of]

/-- What is logged and how. -/
@[simp] def logging : Section where
  name := "logging"
  Content := Logging
  get := Settings.logging
  entries := loggingEntries lenient
  slots := [
    ⟨"level", _, lenient.text?, Logging.level⟩,
    ⟨"format", _, fun v ↦ (lenient.word? v).bind LogFormat.ofName?, Logging.format⟩]
  names_eq := rfl
  readBy := by simp [Slot.ReadBy, loggingEntries, sets_of, keeps_of]

/-- The kind of store. -/
@[simp] def storage : Section where
  name := "storage"
  Content := Storage
  get := Settings.storage
  entries := storageEntries lenient
  slots := [
    ⟨"backend", _, orNull fun v ↦ (lenient.word? v).bind StoreKind.ofName?, Storage.kind⟩]
  names_eq := rfl
  readBy := by simp [Slot.ReadBy, storageEntries, optional_eq_of, sets_of]

/-- How the database is reached. -/
@[simp] def database : Section where
  name := "database"
  Content := Database
  get := Settings.database
  entries := databaseEntries lenient
  slots := [
    ⟨"url", _, orNull lenient.text?, Database.url⟩,
    ⟨"max_connections", _, lenient.natural? bound32, Database.maxConnections⟩,
    ⟨"acquire_timeout_secs", _, lenient.natural? bound64, Database.acquireSeconds⟩,
    ⟨"run_migrations", _, lenient.flag?, Database.runMigrations⟩]
  names_eq := rfl
  readBy := by simp [Slot.ReadBy, databaseEntries, optional_eq_of, sets_of, keeps_of]

/-- What operator tokens are checked against. -/
@[simp] def auth : Section where
  name := "auth"
  Content := Auth
  get := Settings.auth
  entries := authEntries lenient
  slots := [
    ⟨"jwt_secret", _, orNull lenient.text?, Auth.secret⟩,
    ⟨"jwt_issuer", _, orNull lenient.text?, Auth.issuer⟩,
    ⟨"jwt_audience", _, orNull lenient.text?, Auth.audience⟩]
  names_eq := rfl
  readBy := by simp [Slot.ReadBy, authEntries, optional_eq_of, sets_of, keeps_of]

/-- The format of API keys. -/
@[simp] def apiKey : Section where
  name := "api_key"
  Content := CredentialFormat
  get := Settings.apiKey
  entries := apiKeyEntries lenient
  slots := [
    ⟨"scheme", _, lenient.text?, CredentialFormat.scheme⟩,
    ⟨"prefix_length", _, lenient.natural? bound64, CredentialFormat.lookupLength⟩,
    ⟨"secret_length", _, lenient.natural? bound64, CredentialFormat.secretLength⟩]
  names_eq := rfl
  readBy := by simp [Slot.ReadBy, apiKeyEntries, sets_of, keeps_of]

/-- How long the tasks that validations leave behind may take. -/
@[simp] def validation : Section where
  name := "validation"
  Content := Validation
  get := Settings.validation
  entries := validationEntries lenient
  slots := [
    ⟨"enrichment_timeout_secs", _, lenient.natural? bound64, Validation.enrichSeconds⟩,
    ⟨"expiration_timeout_secs", _, lenient.natural? bound64, Validation.expireSeconds⟩]
  names_eq := rfl
  readBy := by simp [Slot.ReadBy, validationEntries, sets_of, keeps_of]

/-- The bounds on background tasks. -/
@[simp] def background : Section where
  name := "background"
  Content := Background
  get := Settings.background
  entries := backgroundEntries lenient
  slots := [
    ⟨"max_in_flight", _, lenient.natural? bound64, Background.maxInFlight⟩,
    ⟨"last_used_timeout_secs", _, lenient.natural? bound64, Background.noteUseSeconds⟩]
  names_eq := rfl
  readBy := by simp [Slot.ReadBy, backgroundEntries, sets_of, keeps_of]

/-- When sweeps are made, and the sizes of their pages. -/
@[simp] def sweeping : Section where
  name := "reconciler"
  Content := Sweeping
  get := Settings.sweeping
  entries := sweepingEntries lenient
  slots := [
    ⟨"run_on_startup", _, lenient.flag?, Sweeping.atStart⟩,
    ⟨"startup_page_size", _, lenient.natural? bound32, Sweeping.startupPageSize⟩,
    ⟨"periodic_page_size", _, lenient.natural? bound32, Sweeping.scheduledPageSize⟩,
    ⟨"interval_secs", _, lenient.natural? bound64, Sweeping.intervalSeconds⟩]
  names_eq := rfl
  readBy := by simp [Slot.ReadBy, sweepingEntries, sets_of, keeps_of]

/-- Whether metrics are shown, and where. -/
@[simp] def metrics : Section where
  name := "metrics"
  Content := MetricsPage
  get := Settings.metrics
  entries := metricsEntries lenient
  slots := [
    ⟨"enabled", _, lenient.flag?, MetricsPage.enabled⟩,
    ⟨"path", _, lenient.text?, MetricsPage.path⟩]
  names_eq := rfl
  readBy := by simp [Slot.ReadBy, metricsEntries, sets_of, keeps_of]

/-- All sections. -/
def all : List Section :=
  [server, logging, storage, database, auth, apiKey, validation, background, sweeping, metrics]

/-- The section as a field of the settings. -/
def field (part : Section) : Slot Settings :=
  ⟨part.name, part.Content, readSection part.entries (part.get {}), part.get⟩

theorem field_readBy : ∀ part ∈ all, part.field.ReadBy (sections lenient) := by
  simp [all, Slot.ReadBy, sections, field, sets_of, keeps_of]

/-- Nothing else is set. -/
theorem ext {settings others : Settings} (h : ∀ part ∈ all, part.get settings = part.get others) :
    settings = others := by
  cases settings
  cases others
  simpa [all] using h

/-- Reading the settings fails only where reading a section does. -/
theorem isSome_read_sections : ∀ entry ∈ sections lenient, ∃ part ∈ all, entry.name = part.name ∧
    ∀ value settings, (part.field.read? value).isSome = true →
      (entry.read value settings).isSome = true := by
  simp [all, sections, field, Entry.of]

end Section

end Licensing.Settings
