import Galley.Machine
import Galley.Proofs.Toml.Document
import Galley.Settings.Configuration

/-!
# What is saved is loaded again

A configuration is written as a document, read as it was written, and its paths are filled in.

* `parse_toText` — the document of a configuration gives that configuration;
* `IsPlainPath`, `fill?_eq_some` — paths in which nothing has to be filled in;
* `Stores` — a host that keeps a file;
* `load_save` — a configuration that is saved on such a host is loaded again.
-/

namespace Galley.Settings

open Galley.Files (FileError Host)
open Galley.Toml (Field)

namespace Configuration

variable {config : Configuration}

/-! ## The document -/

/-- The attributes of different elements, in the order of the elements. -/
def IsOrdered (config : Configuration) : Prop := (config.extraAttributes.map Prod.fst).Pairwise (· < ·)

/-- A field with a text. -/
def textField (name text : String) : Field := ⟨name, Toml.encode text.toList, fun found => found.text? = .ok text⟩

/-- A field with a truth value. -/
def booleanField (name : String) (flag : Bool) : Field := ⟨name, booleanText flag, fun found => found.boolean? = .ok flag⟩

/-- A field with several texts. -/
def textsField (name : String) (texts : List String) : Field :=
  ⟨name, Toml.encodeTexts texts, fun found => found.texts? = .ok texts⟩

/-- The fields of a configuration above the table. -/
def outerFields (config : Configuration) : List Field :=
  [booleanField "dark_mode" config.darkMode, textField "diagram_language" config.diagramLanguage,
    booleanField "sequential_diagram_ids" config.numbersDiagrams, textField "mermaid_cli" config.renderer] ++
  config.bufferPath.toList.map (textField "buffer_path") ++ [textsField "extra_tags" config.extraTags]

/-- The fields in the table. -/
def innerFields (config : Configuration) : List Field :=
  config.extraAttributes.map fun entry => textsField entry.1 entry.2

theorem written_fields (config : Configuration) :
    ∀ field ∈ config.outerFields ++ config.innerFields, Toml.Written field.written field.given := by
  have texts : ∀ name text, Toml.Written (textField name text).written (textField name text).given :=
    fun _ text => Toml.written_encode text
  have flags : ∀ name flag, Toml.Written (booleanField name flag).written (booleanField name flag).given :=
    fun _ flag => Toml.written_boolean flag
  have lists : ∀ name items, Toml.Written (textsField name items).written (textsField name items).given :=
    fun _ items => Toml.written_encodeTexts items
  simp only [outerFields, innerFields, List.mem_append, List.mem_cons, List.not_mem_nil, or_false, List.mem_map]
  rintro field ((((rfl | rfl | rfl | rfl) | ⟨path, -, rfl⟩) | rfl) | ⟨entry, -, rfl⟩)
  · exact flags _ _
  · exact texts _ _
  · exact flags _ _
  · exact texts _ _
  · exact texts _ _
  · exact lists _ _
  · exact lists _ _

theorem toList_toText (config : Configuration) :
    config.toText.toList = config.outerFields.flatMap Field.line ++ Toml.headingLine "extra_attributes" ++
      config.innerFields.flatMap Field.line := by
  have heading : "\n[extra_attributes]\n".toList = Toml.headingLine "extra_attributes" := by decide
  unfold toText outerFields innerFields
  rw [String.toList_ofList, heading, List.flatMap_map]
  cases config.bufferPath <;>
    simp only [List.flatMap_append, List.flatMap_cons, List.flatMap_nil, List.append_assoc, List.append_nil, Option.toList, List.map] <;>
    rfl

theorem nodup_outerFields (config : Configuration) :
    (config.outerFields.map Field.name ++ ["extra_attributes"]).Nodup := by
  unfold outerFields
  cases config.bufferPath with
  | none => exact (by decide : ["dark_mode", "diagram_language", "sequential_diagram_ids", "mermaid_cli", "extra_tags",
      "extra_attributes"].Nodup)
  | some path => exact (by decide : ["dark_mode", "diagram_language", "sequential_diagram_ids", "mermaid_cli", "buffer_path",
      "extra_tags", "extra_attributes"].Nodup)

theorem nodup_innerFields (ordered : config.IsOrdered) : (config.innerFields.map Field.name).Nodup := by
  have names : config.innerFields.map Field.name = config.extraAttributes.map Prod.fst := by
    unfold innerFields
    rw [List.map_map]
    rfl
  rw [names]
  exact ordered.imp fun before => ne_of_lt before

/-- Lists of texts are read under the keys that they are written under. -/
theorem textLists?_of_holds (ordered : config.IsOrdered) {entries : List (String × Value)} (remaining : Nat)
    (holds : List.Forall₂ Field.Gives config.innerFields entries) :
    (Value.located remaining (.table entries)).textLists? = .ok config.extraAttributes := by
  have lists {read : String × Value → Decoded (String × List String)}
      (reads : ∀ name value texts, value.texts? = .ok texts → read (name, value) = .ok (name, texts)) :
      entries.mapM read = .ok config.extraAttributes := by
    unfold innerFields at holds
    generalize config.extraAttributes = attributes at holds
    rw [List.forall₂_map_left_iff] at holds
    induction holds with
    | nil => rfl
    | @cons listed entry attributes entries own _ ih =>
      obtain ⟨name, value⟩ := entry
      obtain ⟨rfl, given⟩ : name = listed.1 ∧ value.texts? = .ok listed.2 := own
      rw [List.mapM_cons, ih, reads _ _ _ given]
      rfl
  have sorted : config.extraAttributes.mergeSort Value.keyBefore = config.extraAttributes := by
    refine List.mergeSort_of_pairwise ?_
    rw [IsOrdered, List.pairwise_map] at ordered
    exact ordered.imp fun before => decide_eq_true (le_of_lt before)
  unfold Value.textLists? Value.reading Value.reading
  simp only [bind, Except.bind] at lists ⊢
  rw [lists fun name value texts given => by rw [given]; rfl]
  simp only [pure, Except.pure, sorted]
  rfl

/-- A text that is given is read where it may be left out. -/
theorem optionalText?_of_text? {text : String} : ∀ {found : Value}, found.text? = .ok text →
    found.optionalText? = .ok (some text)
  | .located position found, given => by
    change (found.text?).mapError _ = _ at given
    change (found.optionalText?).mapError _ = _
    cases inner : found.text? with
    | error mismatch =>
      rw [inner] at given
      cases given
    | ok t =>
      obtain rfl : t = text := by
        rw [inner] at given
        exact Except.ok.inj given
      rw [optionalText?_of_text? inner]
      rfl
  | .text t, given => by
    obtain rfl : t = text := Except.ok.inj given
    rfl

section fields

variable {fields : List Field} {entries tail : List (String × Value)}

theorem lookup_of_holds (holds : List.Forall₂ Field.Gives fields entries)
    (distinct : (fields.map Field.name).Nodup) {field : Field} (member : field ∈ fields) :
    ∃ found, (entries ++ tail).lookup field.name = some found ∧ field.given found := by
  induction holds with
  | nil => cases member
  | @cons first entry fields entries own _ ih =>
    obtain ⟨name, found⟩ := entry
    obtain ⟨rfl, given⟩ := own
    obtain ⟨absent, others⟩ := List.nodup_cons.mp distinct
    rcases List.mem_cons.mp member with rfl | inside
    · exact ⟨found, by simp, given⟩
    · have differs : field.name ≠ first.name := fun same => absent (same ▸ List.mem_map_of_mem inside)
      obtain ⟨found, known, given⟩ := ih others inside
      exact ⟨found, by simpa [List.lookup, beq_eq_false_iff_ne.mpr differs] using known, given⟩

/-- A field is read as it was given. -/
theorem read_of_holds (holds : List.Forall₂ Field.Gives fields entries)
    (distinct : (fields.map Field.name).Nodup) {field : Field} (member : field ∈ fields) {α : Type} {read : Value → Decoded α}
    {value : α} (reads : ∀ found, field.given found → read found = .ok value) (absent : α) :
    Fields.read (entries ++ tail) field.name read absent = .ok value := by
  obtain ⟨found, known, given⟩ := lookup_of_holds holds distinct member
  unfold Fields.read
  rw [known]
  exact reads found given

/-- A name that no field has is looked up behind them. -/
theorem lookup_of_not_mem (holds : List.Forall₂ Field.Gives fields entries)
    {name : String} (absent : name ∉ fields.map Field.name) : (entries ++ tail).lookup name = tail.lookup name := by
  induction holds with
  | nil => rfl
  | @cons first entry fields entries own _ ih =>
    obtain ⟨other, found⟩ := entry
    obtain ⟨rfl, -⟩ := own
    obtain ⟨differs, others⟩ := not_or.mp (mt List.mem_cons.mpr absent)
    simpa [List.lookup, beq_eq_false_iff_ne.mpr differs] using ih others

end fields

theorem exists_head?_toText (config : Configuration) : config.toText.toList.head? = some 'd' := by
  have key : Toml.encodeKey "dark_mode".toList = ['d', 'a', 'r', 'k', '_', 'm', 'o', 'd', 'e'] := by decide
  rw [toList_toText]
  unfold outerFields booleanField Field.line Toml.entryLine
  rw [List.append_assoc, List.append_assoc, List.flatMap_append, List.flatMap_cons, key]
  rfl

/-- A configuration is read as it was written. -/
theorem parse_toText (ordered : config.IsOrdered) (path : String) : parse path config.toText = .ok config := by
  have unmarked : config.toText.toList.head? ≠ some '\ufeff' := by
    rw [exists_head?_toText]
    decide
  obtain ⟨values, remaining, entries, read, holds, holdsInner⟩ :=
    Toml.read_fields (written_fields config) (nodup_outerFields config) (nodup_innerFields ordered)
      (toList_toText config) unmarked
  have distinct : (config.outerFields.map Field.name).Nodup := (List.nodup_append.mp (nodup_outerFields config)).1
  generalize isTail : [("extra_attributes", Value.located remaining (.table entries))] = tail at read
  have given : ∀ {field : Field}, field ∈ config.outerFields → ∀ {α : Type} {read : Value → Decoded α} {value : α},
      (∀ found, field.given found → read found = .ok value) → ∀ absent,
        Fields.read (values ++ tail) field.name read absent = .ok value :=
    fun member _ _ _ reads absent => read_of_holds holds distinct member reads absent
  have dark : Fields.read (values ++ tail) "dark_mode" Value.boolean? usual.darkMode = .ok config.darkMode :=
    given (show booleanField "dark_mode" config.darkMode ∈ _ by simp [outerFields]) (fun _ own => own) _
  have language : Fields.read (values ++ tail) "diagram_language" Value.text? usual.diagramLanguage =
      .ok config.diagramLanguage :=
    given (show textField "diagram_language" config.diagramLanguage ∈ _ by simp [outerFields]) (fun _ own => own) _
  have numbers : Fields.read (values ++ tail) "sequential_diagram_ids" Value.boolean? usual.numbersDiagrams =
      .ok config.numbersDiagrams :=
    given (show booleanField "sequential_diagram_ids" config.numbersDiagrams ∈ _ by simp [outerFields]) (fun _ own => own) _
  have renderer : Fields.read (values ++ tail) "mermaid_cli" Value.text? usual.renderer = .ok config.renderer :=
    given (show textField "mermaid_cli" config.renderer ∈ _ by simp [outerFields]) (fun _ own => own) _
  have buffer : Fields.read (values ++ tail) "buffer_path" Value.optionalText? usual.bufferPath = .ok config.bufferPath := by
    cases known : config.bufferPath with
    | none =>
      have absent : "buffer_path" ∉ config.outerFields.map Field.name := by
        rw [outerFields, known]
        exact (by decide : "buffer_path" ∉ ["dark_mode", "diagram_language", "sequential_diagram_ids", "mermaid_cli",
          "extra_tags"])
      unfold Fields.read
      rw [lookup_of_not_mem holds absent, ← isTail]
      rfl
    | some path =>
      exact given (show textField "buffer_path" path ∈ _ by simp [outerFields, known])
        (fun _ own => optionalText?_of_text? own) _
  have tags : Fields.read (values ++ tail) "extra_tags" Value.texts? usual.extraTags = .ok config.extraTags :=
    given (show textsField "extra_tags" config.extraTags ∈ _ by simp [outerFields]) (fun _ own => own) _
  have attributes : Fields.read (values ++ tail) "extra_attributes" Value.textLists? usual.extraAttributes =
      .ok config.extraAttributes := by
    have absent : "extra_attributes" ∉ config.outerFields.map Field.name :=
      fun member => List.disjoint_of_nodup_append (nodup_outerFields config) member List.mem_cons_self
    unfold Fields.read
    rw [lookup_of_not_mem holds absent, ← isTail]
    exact textLists?_of_holds ordered remaining holdsInner
  have decoded : ofValue (.table (values ++ tail)) = .ok config := by
    have fields : Value.fields fieldNames (.table (values ++ tail)) = .ok (values ++ tail) := rfl
    unfold ofValue
    simp only [bind, Except.bind, fields, dark, language, numbers, renderer, buffer, tags, attributes]
    rfl
  unfold parse
  rw [read]
  simp only [decoded]
  rfl

end Configuration

/-! ## Paths -/

/-- A path in which nothing is filled in: no variable stands in it, and no tilde in front. -/
structure IsPlainPath (path : String) : Prop where
  /-- No variable is named. -/
  noVariable : '$' ∉ path.toList
  /-- It does not begin with the directory of the user. -/
  noTilde : path.toList.head? ≠ some '~'

theorem pieces_of_not_mem {cs : List Char} (plain : '$' ∉ cs) : pieces cs = cs.map fun c => .text (.singleton c) := by
  induction cs with
  | nil => rw [pieces]; rfl
  | cons c rest ih =>
    obtain ⟨other, plain⟩ := not_or.mp (mt List.mem_cons.mpr plain)
    rw [pieces, if_neg (Ne.symm other), ih plain, List.map_cons]

theorem values_of_texts (environment : Environment) (cs : List Char) :
    (cs.map fun c => Piece.text (.singleton c)).mapM (·.value? environment) = some (cs.map String.singleton) := by
  induction cs with
  | nil => rfl
  | cons c rest ih =>
    rw [List.map_cons, List.mapM_cons, ih]
    rfl

theorem join_singletons (cs : List Char) : String.join (cs.map String.singleton) = .ofList cs := by
  induction cs with
  | nil => rfl
  | cons c rest ih =>
    rw [List.map_cons, String.join_cons, ih, ← String.toList_inj]
    simp

/-- A path in which nothing is filled in stays as it is. -/
theorem fill?_eq_some {path : String} (plain : IsPlainPath path) (environment : Environment) :
    fill? environment path = some path := by
  have noTilde : startsWithTilde path = false := by
    unfold startsWithTilde
    rw [beq_eq_false_iff_ne]
    exact plain.noTilde
  unfold fill?
  rw [pieces_of_not_mem plain.noVariable, values_of_texts]
  simp only [bind, Option.bind, join_singletons, String.ofList_toList, noTilde]
  rfl

/-! ## Files -/

section host

variable {σ : Type} {host : Host (StateM σ)} {path : String} {state : σ} {config : Configuration}

/-- A host keeps what is written at a path: it is there, and it is read as it was written. -/
def Keeps (host : Host (StateM σ)) (path : String) (state : σ) : Prop :=
  ∀ content, ∃ written, (host.write path content).run state = (.ok (), written) ∧
    ∃ seen, (host.exists? path).run written = (true, seen) ∧
      ∃ after, (host.read path).run seen = (.ok content, after)

/-- A host on which a file can be saved: the directories around it can be made, and it keeps what is written then. -/
def Stores (host : Host (StateM σ)) (path : String) (state : σ) : Prop :=
  match Files.parent? path with
  | none => Keeps host path state
  | some parent => ∃ ready, (host.makeDirectories parent).run state = (.ok (), ready) ∧ Keeps host path ready

/-- A program goes on from what its first step gives. -/
theorem run_bind_of_run {α β : Type} {first : StateM σ α} {next : α → StateM σ β} {a : α} {after : σ}
    (ran : first.run state = (a, after)) : (first >>= next).run state = (next a).run after := by
  change (StateT.bind first next) state = next a after
  unfold StateT.bind
  rw [show first state = (a, after) from ran]
  rfl

theorem textOf_toUTF8 (text : String) : Files.textOf text.toUTF8 = .ok text := by
  have decoded : Text.Utf8.decode? text.toUTF8 = some text := by
    unfold Text.Utf8.decode? String.fromUTF8?
    rw [String.toUTF8_eq_toByteArray, dif_pos text.isValidUTF8]
    rfl
  unfold Files.textOf
  rw [decoded]

/-- Text that is written is there, and is read as it was written. -/
theorem exists_writeText (stores : Stores host path state) (text : String) :
    ∃ written, (host.writeText path text).run state = (.ok (), written) ∧
      ∃ seen, (host.exists? path).run written = (true, seen) ∧ ∃ after, (host.readText path).run seen = (.ok text, after) := by
  have keeps : ∀ {state}, Keeps host path state → ∃ written, (host.write path text.toUTF8).run state = (.ok (), written) ∧
      ∃ seen, (host.exists? path).run written = (true, seen) ∧
        ∃ after, (host.readText path).run seen = (.ok text, after) := by
    intro state keeps
    obtain ⟨written, wrote, seen, isThere, after, read⟩ := keeps text.toUTF8
    refine ⟨written, wrote, seen, isThere, after, ?_⟩
    unfold Host.readText
    rw [run_bind_of_run read, Except.bind, textOf_toUTF8]
    rfl
  cases known : Files.parent? path with
  | none =>
    unfold Stores at stores
    unfold Host.writeText
    rw [known] at stores ⊢
    exact keeps stores
  | some parent =>
    unfold Stores at stores
    unfold Host.writeText
    rw [known] at stores ⊢
    obtain ⟨ready, made, kept⟩ := stores
    obtain ⟨written, wrote, rest⟩ := keeps kept
    refine ⟨written, ?_, rest⟩
    rw [run_bind_of_run made]
    exact wrote

/-- Variables of the environment can always be asked for, and a path without any stays as it is. -/
theorem exists_fillPath (host : Host (StateM σ)) {path : String} (plain : IsPlainPath path) (state : σ) :
    ∃ after, (fillPath host path).run state = (some path, after) := by
  obtain ⟨environment, after, asked⟩ : ∃ environment after,
      (readEnvironment host (neededNames path)).run state = (environment, after) := ⟨_, _, rfl⟩
  refine ⟨after, ?_⟩
  unfold fillPath
  rw [run_bind_of_run asked, fill?_eq_some plain]
  rfl

theorem exists_fillPaths (host : Host (StateM σ)) (renderer : IsPlainPath config.renderer)
    (buffer : ∀ path ∈ config.bufferPath, IsPlainPath path) (state : σ) :
    ∃ after, (config.fillPaths host).run state = (config, after) := by
  obtain ⟨between, filled⟩ := exists_fillPath host renderer state
  obtain ⟨darkMode, language, numbers, rendererPath, bufferPath, tags, attributes⟩ := config
  unfold Configuration.fillPaths
  rw [run_bind_of_run filled]
  cases bufferPath with
  | none => exact ⟨between, rfl⟩
  | some path =>
    obtain ⟨after, filledBuffer⟩ := exists_fillPath host (buffer path rfl) between
    refine ⟨after, ?_⟩
    simp only
    rw [run_bind_of_run filledBuffer]
    rfl

/-- A configuration that is saved is loaded again. -/
theorem load_save (stores : Stores host path state) (ordered : config.IsOrdered) (renderer : IsPlainPath config.renderer)
    (buffer : ∀ path ∈ config.bufferPath, IsPlainPath path) :
    ∃ saved, (config.save host path).run state = (.ok (), saved) ∧
      ∃ loaded, (Configuration.load host path).run saved = (.ok (some config), loaded) := by
  obtain ⟨saved, wrote, seen, isThere, after, read⟩ := exists_writeText stores config.toText
  obtain ⟨loaded, filled⟩ := exists_fillPaths host renderer buffer after
  refine ⟨saved, wrote, loaded, ?_⟩
  unfold Configuration.load
  rw [run_bind_of_run isThere]
  simp only [Bool.not_true, Bool.false_eq_true, if_false]
  rw [run_bind_of_run read]
  simp only [Configuration.parse_toText ordered]
  rw [run_bind_of_run filled]
  rfl

end host

/-- A configuration with texts of all kinds: marks, control characters, line breaks, nothing. -/
def awkward : Configuration :=
  { Configuration.usual with
    diagramLanguage := "\x22\\\x27\r\n\x22\x22\x22\x00\x7f",
    bufferPath := some "a\x27\tb",
    extraTags := ["", "é\x22\x22\x22\x27\x27\x27\n"],
    extraAttributes := [("", ["\\"]), ("\x22\x27", [])] }

/-- A machine in memory keeps a file in its working directory. -/
theorem stores_machine : Stores Machine.host "config.toml" (.ofEnvironment []) := by
  have parent : Files.parent? "config.toml" = some "" := by decide
  unfold Stores
  rw [parent]
  exact ⟨_, rfl, fun content => ⟨_, rfl, _, rfl, _, rfl⟩⟩

theorem load_save_awkward : Stores Machine.host "config.toml" (.ofEnvironment []) ∧ awkward.IsOrdered ∧
    IsPlainPath awkward.renderer ∧ (∀ path ∈ awkward.bufferPath, IsPlainPath path) ∧
    ∃ saved, (awkward.save Machine.host "config.toml").run (.ofEnvironment []) = (.ok (), saved) ∧
      ∃ loaded, (Configuration.load Machine.host "config.toml").run saved = (.ok (some awkward), loaded) := by
  have ordered : awkward.IsOrdered := by unfold Configuration.IsOrdered; decide
  have renderer : IsPlainPath awkward.renderer := ⟨by decide, by decide⟩
  have buffer : ∀ path ∈ awkward.bufferPath, IsPlainPath path := by
    intro path known
    obtain rfl := Option.some.inj known
    exact ⟨by decide, by decide⟩
  exact ⟨stores_machine, ordered, renderer, buffer, load_save stores_machine ordered renderer buffer⟩

end Galley.Settings
