import CssResources.CommandLine.Arguments
import CssResources.Proofs.TextMap
import CssResources.Proofs.Text.Parts
import CssResources.Session

/-!
# The custom properties of a command line and a configuration

Custom properties are given in two places, and each name is **normalised on its way**: a definition
`NAME=VALUE` of the command line loses the blanks around its name and the dashes in front of it, a
name of the configuration loses its dashes, and a session drops the dashes once more. The places are
read by different rules:

| place | which value of a name counts | lemma |
|---|---|---|
| the command line | the last one | `CssResources.TextMap.get?_ofList` |
| the configuration | the first one, if the command line gives none | `CssResources.TextMap.get?_foldl_insertNew` |

So a name has the value of `CssResources.get?_predefinedOf`. If no two names of the configuration
are the same without dashes, that is the value of its last definition, or else the one that the
configuration gives it (`CssResources.predefined_options`). The names are normal by then
(`CssResources.bareName_of_mem_names`), so a session drops no dashes of them.
-/

namespace CssResources

/-! ### Definitions -/

/-- The name of a definition: what stands in front of the equals sign, without the blanks around it
and without the dashes in front. -/
def definitionName (d : Text) : Text := bareName (trim (d.takeWhile (· ≠ '=')))

/-- The value of a definition, without the blanks around it. -/
def definitionValue (d : Text) : Text := trim (d.dropWhile (· ≠ '=')).tail

/-- **A text is a definition** if it has an equals sign and a name in front of it. -/
def IsDefinition (d : Text) : Prop := '=' ∈ d ∧ definitionName d ≠ []

instance (d : Text) : Decidable (IsDefinition d) :=
  inferInstanceAs (Decidable ('=' ∈ d ∧ definitionName d ≠ []))

/-- What is wrong with a text that is no definition. -/
def definitionFault (d : Text) : FormatFault :=
  if '=' ∈ d then .definitionName d else .definition d

/-- **A definition is read as its name and its value.** -/
theorem definition?_eq (d : Text) :
    definition? d =
      if IsDefinition d then .ok (definitionName d, definitionValue d)
      else .error (definitionFault d) := by
  by_cases hequals : '=' ∈ d
  · rw [definition?, splitOnce?_of_mem hequals, definitionFault, if_pos hequals]
    dsimp only
    by_cases hname : definitionName d = []
    · rw [if_neg fun h => h.2 hname]
      rw [definitionName] at hname
      rw [hname]
    · rw [if_pos ⟨hequals, hname⟩]
      -- the name is taken apart, as the reader looks at its first character
      obtain ⟨c, t, hct⟩ := List.exists_cons_of_ne_nil hname
      rw [hct]
      rw [definitionName] at hct
      rw [hct]
      rfl
  · rw [definition?, splitOnce?_of_not_mem hequals, if_neg fun h => hequals h.1, definitionFault,
      if_neg hequals]

/-- **Definitions are read one by one**, and the first text that is none is the fault. -/
theorem mapM_definition? (ds : List Text) :
    ds.mapM definition? =
      match ds.find? fun d => ¬IsDefinition d with
      | some d => .error (definitionFault d)
      | none => .ok (ds.map fun d => (definitionName d, definitionValue d)) := by
  induction ds with
  | nil => rfl
  | cons d ds ih =>
    rw [List.mapM_cons, ih, definition?_eq]
    by_cases hd : IsDefinition d
    · rw [if_pos hd, List.find?_cons_of_neg (by simp [hd])]
      cases ds.find? fun d => ¬IsDefinition d <;> rfl
    · rw [if_neg hd, List.find?_cons_of_pos (by simp [hd])]
      rfl

/-! ### Options -/

namespace Arguments

variable (args : Arguments)

/-- **The custom properties of the command line**, in order. -/
def given : List (Text × Text) :=
  args.definitions.map fun d => (definitionName d, definitionValue d)

end Arguments

/-- **The custom properties of the configuration**, in the order in which they are taken. -/
def Config.given (config : Config) : List (Text × Text) := config.predefined?.getD []

section Options

variable {args : Arguments} {config : Config} {options : Options}

/-- **The options are rejected exactly if a definition is**, whatever the configuration is. -/
theorem Arguments.options_eq (args : Arguments) (config : Config) :
    args.options config =
      match args.definitions.find? fun d => ¬IsDefinition d with
      | some d => .error (definitionFault d)
      | none =>
        .ok {
          mode := if .colors ∈ args.flags then .colors else config.mode?.getD .styles
          debug := .debug ∈ args.flags || config.debug?.getD false
          stylePrefix? := args.stylePrefix?.or config.stylePrefix?
          predefined := predefinedOf args.given config.given } := by
  rw [options, mapM_definition?]
  cases args.definitions.find? fun d => ¬IsDefinition d <;> rfl

theorem exists_fault_iff :
    (∃ fault, args.options config = .error fault) ↔
      ∃ d ∈ args.definitions, '=' ∉ d ∨ definitionName d = [] := by
  have hbad (d : Text) : ('=' ∉ d ∨ definitionName d = []) ↔ ¬IsDefinition d := by
    rw [IsDefinition, not_and_or, not_not]
  simp only [hbad]
  rw [args.options_eq]
  cases hfind : args.definitions.find? fun d => ¬IsDefinition d with
  | none =>
    have hall := List.find?_eq_none.mp hfind
    simpa using hall
  | some d =>
    have hd := List.find?_some hfind
    simp only [Except.error.injEq, exists_eq', true_iff]
    exact ⟨d, List.mem_of_find?_eq_some hfind, by simpa using hd⟩

theorem predefined_of_options_eq_ok (h : args.options config = .ok options) :
    options.predefined = predefinedOf args.given config.given := by
  rw [args.options_eq] at h
  split at h
  · cases h
  · obtain rfl := Except.ok.inj h
    rfl

end Options

/-! ### The value of a name -/

section Values

variable (definitions configured : List (Text × Text)) (name : Text)

/-- **The value of a name**: that of its last definition, or the first one that the configuration
gives it. -/
theorem get?_predefinedOf :
    (predefinedOf definitions configured).get? name =
      (lastValue? name definitions).or
        ((configured.map fun p => (bareName p.1, p.2)).lookup name) := by
  have hmap : predefinedOf definitions configured =
      (configured.map fun p => (bareName p.1, p.2)).foldl (fun vs p => vs.insertNew p.1 p.2)
        (TextMap.ofList definitions) := by
    rw [predefinedOf, List.foldl_map]
  rw [hmap, TextMap.get?_foldl_insertNew, TextMap.get?_ofList]

end Values

/-- **A name without its dashes has none in front.** -/
theorem bareName_bareName (t : Text) : bareName (bareName t) = bareName t := by
  fun_induction bareName t with
  | case1 t ih => exact ih
  | case2 t hne =>
    unfold bareName
    split
    · exact absurd rfl (hne _)
    · rfl

/-! ### Names -/

section Names

variable {definitions configured : List (Text × Text)} {name value : Text}

/-- **A name of the configuration has its value there**, if no other name is the same without
dashes. -/
theorem lookup_bareName_eq_some_iff (h : (configured.map fun p => bareName p.1).Nodup) :
    (configured.map fun p => (bareName p.1, p.2)).lookup name = some value ↔
      ∃ p ∈ configured, bareName p.1 = name ∧ p.2 = value := by
  have hnodup : ((configured.map fun p => (bareName p.1, p.2)).map Prod.fst).Nodup := by
    rwa [List.map_map]
  rw [lookup_eq_some_iff_of_nodup hnodup]
  simp only [List.mem_map, Prod.mk.injEq]

/-- **The names have no dashes in front**, wherever they were given. -/
theorem bareName_of_mem_names {args : Arguments}
    (h : name ∈ (predefinedOf args.given configured).names) : bareName name = name := by
  obtain ⟨value, hvalue⟩ := TextMap.mem_names_iff.mp h
  rw [get?_predefinedOf, Option.or_eq_some_iff] at hvalue
  rcases hvalue with hgiven | ⟨-, hconfigured⟩
  · obtain ⟨d, -, hd⟩ := List.mem_map.mp (mem_of_lastValue? hgiven)
    obtain ⟨rfl, -⟩ := Prod.mk.inj hd
    exact bareName_bareName _
  · obtain ⟨p, -, hp⟩ := List.mem_map.mp (mem_of_lookup_eq_some hconfigured)
    obtain ⟨rfl, -⟩ := Prod.mk.inj hp
    exact bareName_bareName _

end Names

/-! ### What a session begins with -/

namespace Session

variable {options : Options}

/-- **The custom properties of a session at its start** are the given ones in the order of their
names, in either mode. -/
theorem table_start (options : Options) :
    (start options).table = OrderedMap.write ∅
      (options.predefined.entries.map fun e => (bareName e.1, ⟨e.2, 0⟩)) := by
  have hdefine (s : Session) (e : Text × Text) :
      (s.define options.mode (bareName e.1) e.2 0).table =
        s.table.insert (bareName e.1) ⟨e.2, 0⟩ := by
    rw [define]
    split <;> rfl
  rw [start, OrderedMap.write, List.foldl_map]
  exact (List.foldl_hom Session.table fun s e => (hdefine s e).symm).symm

variable (h : ∀ name ∈ options.predefined.names, bareName name = name)

include h in
/-- If the names have no dashes in front, they stay as they are. -/
theorem table_start_of_bare :
    (start options).table = OrderedMap.write ∅
      (options.predefined.entries.map fun e => (e.1, ⟨e.2, 0⟩)) := by
  rw [table_start]
  congr 1
  exact List.map_congr_left fun e he => by rw [h e.1 (List.mem_map_of_mem he)]

include h in
theorem keys_table_start : (start options).table.keys = options.predefined.names := by
  rw [table_start_of_bare h, OrderedMap.keys_write_empty, List.map_map]
  exact eraseDups_of_nodup options.predefined.nodup_names

include h in
theorem value?_table_start (name : Text) :
    (start options).table.value? name = options.predefined.get? name := by
  rw [table_start_of_bare h, VariableTable.value?, OrderedMap.get?_write_empty,
    lastValue?_map name (fun value => (⟨value, 0⟩ : Definition)), Option.map_map,
    lastValue?_eq_lookup options.predefined.nodup_names]
  exact Option.map_id'

end Session

/-! ### The theorem -/

/-- **The command line comes before the configuration, name by name**, if no two names of the
configuration are the same without dashes. The options are rejected exactly if a definition has no
equals sign or no name. Otherwise a name has the value of its last definition; one that is not
defined has the value that the configuration gives it; and no other name has one. These are the
custom properties that a session begins with. -/
theorem predefined_options {args : Arguments} {config : Config}
    (h : (config.given.map fun p => bareName p.1).Nodup) :
    ((∃ fault, args.options config = .error fault) ↔
      ∃ d ∈ args.definitions, '=' ∉ d ∨ definitionName d = []) ∧
    ∀ options, args.options config = .ok options →
      (∀ name value, options.predefined.get? name = some value ↔
        lastValue? name args.given = some value ∨
        lastValue? name args.given = none ∧
          ∃ p ∈ config.given, bareName p.1 = name ∧ p.2 = value) ∧
      (Session.start options).table.keys = options.predefined.names ∧
      ∀ name, (Session.start options).table.value? name = options.predefined.get? name := by
  refine ⟨exists_fault_iff, fun options hoptions => ?_⟩
  have hpredefined := predefined_of_options_eq_ok hoptions
  have hnames : ∀ name ∈ options.predefined.names, bareName name = name := fun name hname =>
    bareName_of_mem_names (hpredefined ▸ hname)
  refine ⟨fun name value => ?_, Session.keys_table_start hnames, Session.value?_table_start hnames⟩
  rw [hpredefined, get?_predefinedOf, Option.or_eq_some_iff, lookup_bareName_eq_some_iff h]

/-- Definitions of one name with and without dashes. -/
def brandArguments : Arguments where
  input := "in.css".toList
  output := "out.xml".toList
  config? := some "c.json".toList
  stylePrefix? := none
  definitions := ["--brand=#112233".toList, " brand = #445566 ".toList, "----gap=4px".toList]
  flags := []

/-- A configuration with two of these names and another one. -/
def brandConfig : Config where
  predefined? := some [("--accent".toList, "#FFFFFF".toList), ("gap".toList, "1px".toList),
    ("----brand".toList, "#000000".toList)]

theorem predefined_options_brand :
    (brandConfig.given.map fun p => bareName p.1).Nodup ∧
      ∃ options, brandArguments.options brandConfig = .ok options ∧
        (Session.start options).table.value? "brand".toList = some "#445566".toList ∧
        (Session.start options).table.value? "gap".toList = some "4px".toList ∧
        (Session.start options).table.value? "accent".toList = some "#FFFFFF".toList ∧
        (Session.start options).table.keys =
          ["accent".toList, "brand".toList, "gap".toList] := by
  have hnodup : (brandConfig.given.map fun p => bareName p.1).Nodup := by decide
  obtain ⟨hfault, hok⟩ := @predefined_options brandArguments brandConfig hnodup
  cases hoptions : brandArguments.options brandConfig with
  | error fault => exact absurd (hfault.mp ⟨fault, hoptions⟩) (by decide)
  | ok options =>
    obtain ⟨hvalues, hkeys, hstart⟩ := hok options hoptions
    refine ⟨hnodup, options, rfl, ?_, ?_, ?_, ?_⟩
    · rw [hstart, hvalues]
      exact Or.inl (by decide)
    · rw [hstart, hvalues]
      exact Or.inl (by decide)
    · rw [hstart, hvalues]
      exact Or.inr ⟨by decide, by decide⟩
    · rw [hkeys, predefined_of_options_eq_ok hoptions]
      decide

end CssResources
