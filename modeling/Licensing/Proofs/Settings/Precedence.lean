import Licensing.Proofs.Settings.Layers
import Licensing.Proofs.Settings.Slots

/-!
# Which source of settings counts

The sources of settings are ranked: the variable for the address of the database, which gives only
that, the other variables, and the files, the later before the earlier. `ranked` lists what they
give for a setting, the highest first.

The main result is `precedence_of_load`. If every source that gives a section gives it as a table,
then each setting of the section is what the highest of the sources that give it says; it has its
default if there is none. A section is reset by a source that gives it as a list, and a value that
is itself a table is laid over the lower ones: by `not_forall_highest`, neither can be left out.

It rests on what laying the layers comes to for a section (`get?_partIn_foldl`), on what is read of
a section slot by slot (`Slot.ReadBy.holds`), and on which variable and which field of a file give a
setting (`ofEnvironment_variable`, `ofTable_section`). Between these there is one table for each
section, and `exists_table_of_load` says what is in it.
-/

namespace Licensing.Settings

open Json (Fields)
open Manner (lenient)

/-! ### From a tree to settings -/

namespace Section

variable {part : Section} {settings : Settings} {tree : Json}

/-- **A section of the settings is read from the section of the tree**, and from an empty one if it
is not there. -/
theorem read_of_ofTree? (hpart : part ∈ all) (h : IsTabled part.name tree)
    (hread : ofTree? lenient tree = some settings) :
    readSection part.entries (part.get {}) (.object (partIn part.name tree)) =
      some (part.get settings) := by
  obtain ⟨root, rfl⟩ := Json.isObject_iff.1 h.root
  have hholds := (field_readBy part hpart).holds hread
  rw [Slot.Holds] at hholds
  rw [partIn]
  rcases hvalue : part? part.name (.object root) with - | value
  · rw [show root.get? part.field.name = none from hvalue] at hholds
    exact (readSection_empty _ _).trans (congrArg some hholds.symm)
  · rw [show root.get? part.field.name = some value from hvalue] at hholds
    obtain ⟨fields, rfl⟩ := Json.isObject_iff.1 (h.part value hvalue)
    exact hholds

/-- **The settings are read if each section is.** -/
theorem ofTree?_eq_some_iff (h : ∀ part ∈ all, IsTabled part.name tree) :
    ofTree? lenient tree = some settings ↔ ∀ part ∈ all,
      readSection part.entries (part.get {}) (.object (partIn part.name tree)) =
        some (part.get settings) := by
  refine ⟨fun hread part hpart ↦ read_of_ofTree? hpart (h part hpart) hread, fun hread ↦ ?_⟩
  obtain ⟨root, rfl⟩ := Json.isObject_iff.1 (h server List.mem_cons_self).root
  have hsome : (ofTree? lenient (.object root)).isSome = true := by
    refine isSome_readSection (fun entry hentry value hvalue ↦ ?_) _
    obtain ⟨part, hpart, hname, hsome⟩ := isSome_read_sections entry hentry
    rw [hname] at hvalue
    obtain ⟨fields, rfl⟩ := Json.isObject_iff.1 ((h part hpart).part value hvalue)
    have hfields := hread part hpart
    rw [partIn, show part? part.name (.object root) = _ from hvalue] at hfields
    exact fun settings ↦ hsome _ settings (Option.isSome_iff_exists.2 ⟨_, hfields⟩)
  obtain ⟨others, hothers⟩ := Option.isSome_iff_exists.1 hsome
  refine hothers.trans (congrArg some (ext fun part hpart ↦ ?_))
  have hread' := read_of_ofTree? hpart (h part hpart) hothers
  exact Option.some.inj (hread'.symm.trans (hread part hpart))

end Section

/-! ### Sources -/

/-- The values that the sources give for a setting, those of the highest first. -/
def ranked (contents : List String) (environment : Environment) (heading name : String) :
    List Json :=
  (if heading = "database" ∧ name = "url" then
    (environment.lookup databaseVariable).toList.map .string else []) ++
  (Layer.ofEnvironment environment).given heading name ++
  contents.reverse.flatMap fun text ↦ ((Layer.ofFile? text).getD []).given heading name

/-- Whether the sources give a section as a table wherever they give it. -/
def GiveTables (contents : List String) (environment : Environment) (heading : String) : Prop :=
  (∀ text ∈ contents, ((Layer.ofFile? text).getD []).Tables heading) ∧
    (Layer.ofEnvironment environment).Tables heading

instance (contents : List String) (environment : Environment) (heading : String) :
    Decidable (GiveTables contents environment heading) :=
  inferInstanceAs (Decidable ((∀ _ ∈ _, _) ∧ _))

/-- **The variable for a setting** has a name that is, in lower case, `app` and the names of the
section and of the setting, with two underscores between them. -/
theorem ofEnvironment_variable {part : Section} (hpart : part ∈ Section.all)
    {slot : Slot part.Content} (hslot : slot ∈ part.slots) {key : String}
    (hkey : lowerCase key = "app__" ++ part.name ++ "__" ++ slot.name) (text : String) :
    Layer.ofEnvironment [(key, text)] = [([.field part.name, .field slot.name], valueOf text)] := by
  have hpath : ∀ part ∈ Section.all, ∀ slot ∈ part.slots,
      (Text.after? namesStart
        ("app__".toList ++ part.name.toList ++ "__".toList ++ slot.name.toList)).map
          (fun rest ↦ Path.ofText (String.ofList (withPoints rest))) =
        some [.field part.name, .field slot.name] := by
    decide +kernel
  obtain ⟨rest, hrest, hfields⟩ := Option.map_eq_some_iff.1 (hpath part hpart slot hslot)
  simp only [Layer.ofEnvironment, hkey, String.toList_append, hrest, List.filterMap_cons,
    Option.map_some, hfields, List.filterMap_nil]

/-- The section of a file is what stands under its name. -/
theorem ofTable_section {part : Section} (hpart : part ∈ Section.all) (value : Json) :
    Layer.ofTable [(part.name, value)] = [([.field part.name], value)] := by
  have hpath : ∀ part ∈ Section.all, Path.ofText part.name = [.field part.name] := by
    decide +kernel
  simp only [Layer.ofTable, List.map_cons, hpath part hpart, List.map_nil]

/-- The same counts in both lists: they have the same highest value, which is no table, or all their
values are the same. -/
def Agree (values others : List Json) : Prop :=
  values = others ∨
    ∃ highest ∈ values.head?, highest.isObject = false ∧ others.head? = some highest

instance (values others : List Json) : Decidable (Agree values others) :=
  inferInstanceAs (Decidable (_ ∨ ∃ highest ∈ values.head?, _))

theorem Agree.settle_eq {values others : List Json} (h : Agree values others) :
    settle values = settle others := by
  obtain rfl | ⟨highest, hvalues, hother, hothers⟩ := h
  · rfl
  · obtain ⟨lower, rfl⟩ := List.head?_eq_some_iff.1 hvalues
    obtain ⟨others, rfl⟩ := List.head?_eq_some_iff.1 hothers
    rw [settle_cons hother, settle_cons hother]

section Layers

variable {contents : List String} {environment : Environment} {heading name : String}

theorem eq_map_of_mapM {ofFiles : List Layer} (h : contents.mapM Layer.ofFile? = some ofFiles) :
    ofFiles = contents.map fun text ↦ (Layer.ofFile? text).getD [] := by
  induction contents generalizing ofFiles with
  | nil => cases h; rfl
  | cons text rest ih =>
    rw [List.mapM_cons] at h
    obtain ⟨layer, hlayer, h⟩ := Option.bind_eq_some_iff.1 h
    obtain ⟨layers, hlayers, h⟩ := Option.bind_eq_some_iff.1 h
    cases h
    rw [List.map_cons, hlayer, Option.getD_some, ih hlayers]

/-- The address of the database is all that its variable gives. -/
theorem given_address (url : Option String) (heading name : String) :
    Layer.given ((url.map fun url ↦ (databasePath, Json.string url)).toList) heading name =
      if heading = "database" ∧ name = "url" then url.toList.map .string else [] := by
  rcases url with - | url
  · simp [Layer.given]
  · have hlower : lowerCase "database" = "database" ∧ lowerCase "url" = "url" := by decide +kernel
    refine (given_field "database" "url" heading name _).trans ?_
    rw [hlower.1, hlower.2]
    simp [eq_comm]

/-- The layers are ranked in their order. -/
theorem given_layers {layers : List Layer} (h : layers? contents environment = some layers) :
    layers.reverse.flatMap (·.given heading name) = ranked contents environment heading name := by
  obtain ⟨ofFiles, hfiles, h⟩ := Option.bind_eq_some_iff.1 h
  cases h
  rw [eq_map_of_mapM hfiles]
  simp [ranked, given_address, ← List.map_reverse, List.flatMap_map]

/-- If the sources give a section as a table, then so do all layers. -/
theorem GiveTables.layers {layers : List Layer} (h : layers? contents environment = some layers)
    (htables : GiveTables contents environment heading) :
    ∀ layer ∈ layers, layer.Tables heading := by
  obtain ⟨ofFiles, hfiles, h⟩ := Option.bind_eq_some_iff.1 h
  cases h
  rw [eq_map_of_mapM hfiles]
  simp only [List.forall_mem_append, List.forall_mem_map, List.forall_mem_cons]
  refine ⟨htables.1, htables.2, fun entry hentry ↦ ?_, nofun⟩
  obtain ⟨url, -, rfl⟩ := Option.map_eq_some_iff.1 (Option.mem_toList.1 hentry)
  by_cases hheading : lowerCase "database" = heading <;>
    simp [fieldsFor?, databasePath, Path.nest?, Json.fields?, hheading]

end Layers

/-! ### Settings from sources -/

variable {contents : List String} {environment : Environment} {settings : Settings}
  {part : Section}

/-- **A section comes from what is given for it**: there is a table that has, for each of its
settings, what the values given for it come to, and the section is read from that. -/
theorem exists_table_of_load (h : load? contents environment = some settings)
    (hpart : part ∈ Section.all) (htables : GiveTables contents environment part.name) :
    ∃ fields : Fields,
      (∀ name, fields.get? name = settle (ranked contents environment part.name name)) ∧
      readSection part.entries (part.get {}) (.object fields) = some (part.get settings) := by
  obtain ⟨layers, hlayers, hread⟩ := Option.bind_eq_some_iff.1 h
  obtain ⟨htabled, hget⟩ := get?_partIn_foldl (htables.layers hlayers)
  refine ⟨_, fun name ↦ ?_, part.read_of_ofTree? hpart htabled hread⟩
  rw [hget, given_layers hlayers]

/-- **What is overridden does not count**: if all sections are given as tables, then sources in
which the same counts for every setting hold the same settings. -/
theorem load?_eq_of_agree (h : load? contents environment = some settings)
    {otherContents : List String} {otherEnvironment : Environment}
    (hlayers : (layers? otherContents otherEnvironment).isSome = true)
    (hagree : ∀ part ∈ Section.all, GiveTables contents environment part.name ∧
      GiveTables otherContents otherEnvironment part.name ∧
      ∀ slot ∈ part.slots, Agree (ranked contents environment part.name slot.name)
        (ranked otherContents otherEnvironment part.name slot.name)) :
    load? otherContents otherEnvironment = some settings := by
  obtain ⟨layers, hlayers⟩ := Option.isSome_iff_exists.1 hlayers
  rw [load?, hlayers, Option.bind_some]
  have htree : ∀ part ∈ Section.all, _ := fun part hpart ↦
    get?_partIn_foldl ((hagree part hpart).2.1.layers hlayers)
  refine (Section.ofTree?_eq_some_iff fun part hpart ↦ (htree part hpart).1).2 ?_
  intro part hpart
  obtain ⟨htables, -, hslots⟩ := hagree part hpart
  obtain ⟨fields, hfields, hread⟩ := exists_table_of_load h hpart htables
  rw [← hread]
  refine readSection_congr (fun entry hentry ↦ ?_) _
  obtain ⟨slot, hslot, hname⟩ : ∃ slot ∈ part.slots, slot.name = entry.name :=
    List.mem_map.1 (part.names_eq ▸ List.mem_map_of_mem hentry)
  rw [(htree part hpart).2, given_layers hlayers, hfields, ← hname, (hslots slot hslot).settle_eq]

/-- **Which source counts.** Of the settings that are loaded,

* each setting of a section that the sources give as a table wherever they give it has its default
  if no source gives it, and else the value of the highest source that does, whatever is said about
  other settings; a value that is itself a table is laid over what the lower ones come to;
* nothing else matters: if all sections are given as tables, then any sources that can be read and
  in which the same counts for every setting hold the same settings. -/
theorem precedence_of_load (h : load? contents environment = some settings) :
    (∀ part ∈ Section.all, GiveTables contents environment part.name → ∀ slot ∈ part.slots,
      let given := ranked contents environment part.name slot.name
      let result := slot.get (part.get settings)
      (given = [] → result = slot.get (part.get {})) ∧
      ∀ highest lower, given = highest :: lower →
        (highest.isObject = false → slot.read? highest = some result) ∧
        slot.read? (overlay highest (settle lower)) = some result) ∧
    ∀ otherContents otherEnvironment, (layers? otherContents otherEnvironment).isSome = true →
      (∀ part ∈ Section.all, GiveTables contents environment part.name ∧
        GiveTables otherContents otherEnvironment part.name ∧
        ∀ slot ∈ part.slots, Agree (ranked contents environment part.name slot.name)
          (ranked otherContents otherEnvironment part.name slot.name)) →
      load? otherContents otherEnvironment = some settings := by
  refine ⟨fun part hpart htables slot hslot ↦ ?_, fun _ _ ↦ load?_eq_of_agree h⟩
  obtain ⟨fields, hfields, hread⟩ := exists_table_of_load h hpart htables
  have hholds := (part.readBy slot hslot).holds hread
  rw [Slot.Holds, hfields] at hholds
  refine ⟨fun hnone ↦ ?_, fun highest lower hgiven ↦ ?_⟩
  · rwa [hnone] at hholds
  · rw [hgiven] at hholds
    refine ⟨fun hother ↦ ?_, hholds⟩
    rwa [settle_cons hother] at hholds

/-- A file that sets where the service listens. -/
def listeningFile : String := "\x7b\"server\": \x7b\"host\": \"a\", \"port\": 9000\x7d\x7d"

/-- The same with another port. -/
def movedFile : String := "\x7b\"server\": \x7b\"host\": \"a\", \"port\": 9002\x7d\x7d"

/-- A file that sets only the port. -/
def portFile : String := "\x7b\"server\": \x7b\"port\": 9001\x7d\x7d"

/-- Variables for another setting of the section and for the address of the database. -/
def fewVariables : Environment :=
  [("APP__SERVER__SHUTDOWN_GRACE_SECS", "7"), (databaseVariable, "postgres://db")]

/-- Each of four sources has its say, and none resets what it does not set. The port that is
overridden could as well be another. -/
theorem precedence_of_load_listening :
    ∃ settings, load? [listeningFile, portFile] fewVariables = some settings ∧
      settings.server.host = "a" ∧ settings.server.port = 9001 ∧
      settings.server.graceSeconds = 7 ∧ settings.database.url = some "postgres://db" ∧
      settings.database.maxConnections = 10 ∧
      load? [movedFile, portFile] fewVariables = some settings := by
  obtain ⟨settings, h⟩ : ∃ settings, load? [listeningFile, portFile] fewVariables = some settings :=
    Option.isSome_iff_exists.1 (by decide +kernel)
  have hagree : ∀ part ∈ Section.all,
      GiveTables [listeningFile, portFile] fewVariables part.name ∧
        GiveTables [movedFile, portFile] fewVariables part.name ∧ ∀ slot ∈ part.slots,
          Agree (ranked [listeningFile, portFile] fewVariables part.name slot.name)
            (ranked [movedFile, portFile] fewVariables part.name slot.name) := by
    decide +kernel
  obtain ⟨hsettings, hothers⟩ := precedence_of_load h
  have hserver := hsettings .server (.head _) (hagree _ (.head _)).1
  have hdatabase : ∀ slot ∈ Section.database.slots, _ :=
    hsettings .database (by simp [Section.all]) (hagree _ (by simp [Section.all])).1
  have hhost : some "a" = some settings.server.host :=
    ((hserver _ (.head _)).2 (.string "a") [] (by decide +kernel)).1 rfl
  have hport : lenient.natural? bound16 (.int 9001) = some settings.server.port :=
    ((hserver _ (.tail _ (.head _))).2 (.int 9001) [.int 9000] (by decide +kernel)).1 rfl
  have hgrace : lenient.natural? bound64 (.int 7) = some settings.server.graceSeconds :=
    ((hserver _ (.tail _ (.tail _ (.head _)))).2 (.int 7) [] (by decide +kernel)).1 rfl
  have hurl : some (some "postgres://db") = some settings.database.url :=
    ((hdatabase _ (.head _)).2 (.string "postgres://db") [] (by decide +kernel)).1 rfl
  have hconnections : settings.database.maxConnections = 10 :=
    (hdatabase _ (.tail _ (.head _))).1 (by decide +kernel)
  rw [show lenient.natural? bound16 (.int 9001) = some 9001 by decide +kernel] at hport
  rw [show lenient.natural? bound64 (.int 7) = some 7 by decide +kernel] at hgrace
  exact ⟨settings, h, (Option.some.inj hhost).symm, (Option.some.inj hport).symm,
    (Option.some.inj hgrace).symm, (Option.some.inj hurl).symm, hconnections,
    hothers _ _ (by decide +kernel) hagree⟩

/-- A file that gives a section as a list without items. -/
def listFile : String := "\x7b\"server\": []\x7d"

/-- A file that gives a table for the port. -/
def tableFile : String := "\x7b\"server\": \x7b\"port\": \x7b\x7d\x7d\x7d"

/-- **The highest value for a setting does not always count.** Though it is no table, it does not
count where a source above gives the section as a list; and though all sections are given as tables,
it does not count where it is a table. -/
theorem not_forall_highest :
    (¬ ∀ contents environment settings, load? contents environment = some settings →
      ∀ part ∈ Section.all, ∀ slot ∈ part.slots, ∀ highest lower,
        ranked contents environment part.name slot.name = highest :: lower →
          highest.isObject = false →
            slot.read? highest = some (slot.get (part.get settings))) ∧
    (¬ ∀ contents environment settings, load? contents environment = some settings →
      (∀ part ∈ Section.all, GiveTables contents environment part.name) →
        ∀ part ∈ Section.all, ∀ slot ∈ part.slots, ∀ highest lower,
          ranked contents environment part.name slot.name = highest :: lower →
            slot.read? highest = some (slot.get (part.get settings))) := by
  constructor
  · intro hall
    have hdefault : (load? [portFile, listFile] []).map (·.server.port) = some 8080 := by
      decide +kernel
    obtain ⟨settings, h, hport⟩ := Option.map_eq_some_iff.1 hdefault
    have hread : lenient.natural? bound16 (.int 9001) = some settings.server.port :=
      hall _ _ settings h .server (.head _) _ (.tail _ (.head _)) (.int 9001) []
        (by decide +kernel) rfl
    rw [show lenient.natural? bound16 (.int 9001) = some 9001 by decide +kernel, hport] at hread
    cases hread
  · intro hall
    obtain ⟨settings, h⟩ : ∃ settings, load? [portFile, tableFile] [] = some settings :=
      Option.isSome_iff_exists.1 (by decide +kernel)
    have hread : none = some settings.server.port :=
      hall _ _ settings h (by decide +kernel) .server (.head _) _ (.tail _ (.head _)) (.object [])
        [.int 9001] (by decide +kernel)
    cases hread

end Licensing.Settings
