import CssResources.Proofs.CommandLine.Options
import CssResources.Proofs.CommandLine.Run

/-!
# The order of a configuration's custom properties

The custom properties of a configuration are a set of names with their values, which a reader may
go through in any order. They are kept without the dashes in front of their names, so **two of them
may meet**, and then the first one counts. The options are the same for every order exactly if all
names are settled (`CssResources.Arguments.Settles`): those that meet have one value, or the command
line defines them (`CssResources.options_order_iff`).

Where all names are settled, two runs that go through a configuration in orders of their own come to
the same (`CssResources.perform_runInOrder`). Where they are not, the options are not the same
(`CssResources.options_order_brand`).
-/

namespace CssResources

/-! ### Orders -/

/-- **The configuration with its custom properties in an order.** -/
def Config.inOrder (config : Config) (order : List (Text × Text)) : Config :=
  { config with predefined? := some order }

/-- **All names of the configuration are settled**, unless the definitions are rejected anyway: two
that are the same without dashes have one value, or the command line defines them. -/
def Arguments.Settles (args : Arguments) (config : Config) : Prop :=
  (∀ d ∈ args.definitions, IsDefinition d) →
    ∀ p ∈ config.given, ∀ q ∈ config.given, bareName p.1 = bareName q.1 →
      bareName p.1 ∈ args.definitions.map definitionName ∨ p.2 = q.2

section Options

variable {args : Arguments} {config : Config} {order : List (Text × Text)}

/-- The order matters to the custom properties alone. -/
theorem options_inOrder_eq
    (h : (∀ d ∈ args.definitions, IsDefinition d) →
      predefinedOf args.given order = predefinedOf args.given config.given) :
    args.options (config.inOrder order) = args.options config := by
  rw [args.options_eq, args.options_eq]
  cases hfind : args.definitions.find? fun d => ¬IsDefinition d with
  | some d => rfl
  | none =>
    have hall : ∀ d ∈ args.definitions, IsDefinition d := by
      simpa using List.find?_eq_none.mp hfind
    rw [← h hall]
    rfl

/-- A name that the command line does not define has no value there. -/
theorem lastValue?_given_eq_none_iff {name : Text} :
    lastValue? name args.given = none ↔ name ∉ args.definitions.map definitionName := by
  rw [lastValue?_eq_lookup_reverse, List.lookup_eq_none_iff]
  simp only [List.mem_reverse, Arguments.given, List.mem_map, bne_iff_ne, ne_eq, not_exists,
    not_and, forall_exists_index, and_imp, forall_apply_eq_imp_iff₂]
  exact forall₂_congr fun d _ => ⟨fun h heq => h heq.symm, fun h heq => h heq.symm⟩

/-- **If all names are settled, the order makes no difference.** -/
theorem options_inOrder_of_settles (h : args.Settles config) (horder : order.Perm config.given) :
    args.options (config.inOrder order) = args.options config := by
  refine options_inOrder_eq fun hall => TextMap.ext_get? fun name => ?_
  rw [get?_predefinedOf, get?_predefinedOf]
  cases hgiven : lastValue? name args.given with
  | some value => rfl
  | none =>
    rw [lastValue?_given_eq_none_iff] at hgiven
    refine congrArg (none.or ·) (lookup_eq_of_perm (horder.symm.map _) ?_).symm
    intro e he e' he' hname hname'
    obtain ⟨p, hp, rfl⟩ := List.mem_map.mp he
    obtain ⟨q, hq, rfl⟩ := List.mem_map.mp he'
    rw [← hname] at hgiven
    exact (h hall p hp q hq (hname.trans hname'.symm)).resolve_left hgiven

/-- The custom property that comes first counts. -/
theorem get?_predefinedOf_cons (order : List (Text × Text)) {p : Text × Text}
    (h : bareName p.1 ∉ args.definitions.map definitionName) :
    (predefinedOf args.given (p :: order)).get? (bareName p.1) = some p.2 := by
  rw [get?_predefinedOf, lastValue?_given_eq_none_iff.mpr h, List.map_cons, lookup_cons_eq,
    if_pos rfl, Option.none_or]

/-- **If the order makes no difference, all names are settled**: of two names that meet either may
come first. -/
theorem settles_of_options_inOrder
    (h : ∀ order, order.Perm config.given →
      args.options (config.inOrder order) = args.options config) :
    args.Settles config := by
  intro hall p hp q hq hname
  by_contra hnot
  rw [not_or] at hnot
  obtain ⟨hdefined, hvalue⟩ := hnot
  have hoptions : ∃ options, args.options config = .ok options := by
    cases hoptions : args.options config with
    | ok options => exact ⟨options, rfl⟩
    | error fault =>
      obtain ⟨d, hd, hbad⟩ := exists_fault_iff.mp ⟨fault, hoptions⟩
      exact absurd (hall d hd) fun hd => hbad.elim (· hd.1) hd.2
  obtain ⟨options, hoptions⟩ := hoptions
  -- either of the two may come first, and is the one that counts then
  have hfirst {r : Text × Text} (hr : r ∈ config.given) :
      options.predefined = predefinedOf args.given (r :: config.given.erase r) :=
    predefined_of_options_eq_ok ((h _ (List.perm_cons_erase hr).symm).trans hoptions)
  have hp' := get?_predefinedOf_cons (config.given.erase p) hdefined
  have hq' := get?_predefinedOf_cons (config.given.erase q) (hname ▸ hdefined)
  rw [← hfirst hp] at hp'
  rw [← hfirst hq, ← hname, hp'] at hq'
  exact hvalue (Option.some.inj hq')

end Options

/-! ### Runs -/

section Run

variable {m : Type → Type} [Monad m] [Host m]

/-- What is left of a conversion when the configuration is read. -/
def Arguments.convertWith (args : Arguments) (config : Config) :
    m (Except ConvertError (Mode × Statistics)) := do
  if ← Host.hasPath args.input then
    match args.options config with
    | .error fault => return .error (.invalidFormat fault)
    | .ok options =>
      match ← convertFile (m := m) options args.input args.output with
      | .error e => return .error e
      | .ok statistics => return .ok (options.mode, statistics)
  else return .error (.fileNotFound (.input args.input))

/-- **A conversion that goes through the configuration in an order of its own.** -/
def Arguments.convertInOrder (order : List (Text × Text) → List (Text × Text)) (args : Arguments) :
    m (Except ConvertError (Mode × Statistics)) := do
  match ← args.loadConfig (m := m) with
  | .error e => return .error e
  | .ok config => args.convertWith (config.inOrder (order config.given))

/-- What is left of a run when its arguments are read. -/
def runWith (convert : Arguments → m (Except ConvertError (Mode × Statistics)))
    (args : Arguments) : m Report := do
  let start ← Host.clock
  match ← convert args with
  | .error e => return { exitCode := 1, errors := e.report }
  | .ok (mode, statistics) =>
    let stop ← Host.clock
    return {
      exitCode := 0
      output :=
        successText mode args.output statistics
          ++ if .stats ∈ args.flags then statistics.json (stop - start) else [] }

/-- **A run that goes through the configuration in an order of its own.** -/
def runInOrder (order : List (Text × Text) → List (Text × Text)) (list : List Text) : m Report := do
  match Arguments.ofList list with
  | .error e => return e.report
  | .ok args => runWith (Arguments.convertInOrder order) args

/-- A conversion reads the configuration first. -/
theorem Arguments.convert_eq (args : Arguments) :
    args.convert (m := m) = (do
      match ← args.loadConfig (m := m) with
      | .error e => return .error e
      | .ok config => args.convertWith config) := rfl

/-- A run reads its arguments first. -/
theorem run_eq (list : List Text) :
    run (m := m) list =
      match Arguments.ofList list with
      | .error e => pure e.report
      | .ok args => runWith Arguments.convert args := rfl

/-- A conversion knows nothing of the configuration but the options. -/
theorem Arguments.convertWith_congr {args : Arguments} {config config' : Config}
    (h : args.options config = args.options config') :
    args.convertWith (m := m) config = args.convertWith config' := by
  rw [convertWith, h]
  rfl

end Run

section Disk

variable {d : Disk} {args : Arguments} {order : List (Text × Text) → List (Text × Text)}

/-- **Conversions of one disk come to the same**, in whichever order they go through the
configuration. -/
theorem perform_convertInOrder (horder : ∀ ps, (order ps).Perm ps)
    (h : ∀ config, args.configOn? d = some config → args.Settles config) :
    d.perform (args.convertInOrder order) = d.perform args.convert := by
  rw [Arguments.convert_eq, Arguments.convertInOrder, Disk.perform_bind, Disk.perform_bind]
  cases hconfig : args.configOn? d with
  | none =>
    obtain ⟨e, he⟩ := Arguments.loadConfig_failsOn hconfig
    rw [he]
  | some config =>
    have hoptions := options_inOrder_of_settles (h config hconfig) (horder config.given)
    rw [Arguments.perform_loadConfig hconfig]
    dsimp only
    rw [Arguments.convertWith_congr hoptions]

/-- **Runs on one disk come to the same**, with the same report and the same files. -/
theorem perform_runInOrder (horder : ∀ ps, (order ps).Perm ps) {list : List Text}
    (h : ∀ args config, Arguments.ofList list = .ok args → args.configOn? d = some config →
      args.Settles config) :
    d.perform (runInOrder order list) = d.perform (run list) := by
  rw [run_eq, runInOrder]
  cases hargs : Arguments.ofList list with
  | error e => rfl
  | ok args =>
    have hconvert := perform_convertInOrder horder fun config => h args config hargs
    simp only [runWith, Disk.perform_bind, Disk.perform_clock, hconvert]

end Disk

/-! ### The theorem -/

/-- **The options are the same for every order of the configuration exactly if all names are
settled.** Then a run that goes through the configuration in any order comes to the same as one that
goes through it as it is written, so two runs with orders of their own do. -/
theorem options_order_iff (args : Arguments) (config : Config) :
    ((∀ order, order.Perm config.given →
        args.options (config.inOrder order) = args.options config) ↔ args.Settles config) ∧
      ∀ (d : Disk) (list : List Text), Arguments.ofList list = .ok args →
        args.configOn? d = some config → args.Settles config →
        ∀ order : List (Text × Text) → List (Text × Text), (∀ ps, (order ps).Perm ps) →
          d.perform (runInOrder order list) = d.perform (run list) := by
  refine ⟨⟨settles_of_options_inOrder, fun h _ => options_inOrder_of_settles h⟩, ?_⟩
  intro d list hlist hconfig h order horder
  refine perform_runInOrder horder fun args' config' hlist' hconfig' => ?_
  obtain rfl := Except.ok.inj (hlist.symm.trans hlist')
  obtain rfl := Option.some.inj (hconfig.symm.trans hconfig')
  exact h

/-- A configuration of two names that are the same without dashes. -/
def meetingText : Text :=
  "[custom_variables]\nbrand = '#000000'\n--brand = '#FFFFFF'\n".toList

/-- The two names with their values. -/
def meetingConfig : Config where
  predefined? := some [("brand".toList, "#000000".toList), ("--brand".toList, "#FFFFFF".toList)]

/-- Arguments that define the name on the command line. -/
def settlingArguments : Arguments where
  input := "in.css".toList
  output := "out.xml".toList
  config? := some "c.toml".toList
  stylePrefix? := none
  definitions := ["--brand=#112233".toList]
  flags := []

theorem options_order_iff_settling :
    let d : Disk := Disk.put {} ["c.toml".toList] (utf8Bytes meetingText)
    let list := ["in.css".toList, "out.xml".toList, "-c".toList, "c.toml".toList,
      "-D--brand=#112233".toList]
    (Arguments.ofList list = .ok settlingArguments ∧
        settlingArguments.configOn? d = some meetingConfig ∧
        settlingArguments.Settles meetingConfig) ∧
      settlingArguments.options (meetingConfig.inOrder meetingConfig.given.reverse) =
        settlingArguments.options meetingConfig ∧
      d.perform (runInOrder List.reverse list) = d.perform (run list) := by
  intro d list
  have hlist : Arguments.ofList list = .ok settlingArguments := by decide
  have hconfig : settlingArguments.configOn? d = some meetingConfig := by
    have htext : d.text? "c.toml".toList = some meetingText := Disk.text?_put_utf8Bytes (Or.inr rfl)
    have hread : (Config.ofText "c.toml".toList meetingText).toOption = some meetingConfig := by
      decide +kernel
    rw [Arguments.configOn?]
    dsimp only [settlingArguments]
    rw [htext]
    exact hread
  have hsettles : settlingArguments.Settles meetingConfig := by
    intro _ p hp _ _ _
    have hall : ∀ p ∈ meetingConfig.given,
        bareName p.1 ∈ settlingArguments.definitions.map definitionName := by decide
    exact Or.inl (hall p hp)
  obtain ⟨hoptions, hrun⟩ := options_order_iff settlingArguments meetingConfig
  exact ⟨⟨hlist, hconfig, hsettles⟩, hoptions.mpr hsettles _ (List.reverse_perm _),
    hrun d list hlist hconfig hsettles List.reverse List.reverse_perm⟩

/-- **The order makes a difference to names that meet**, if the command line does not define
them. -/
theorem options_order_brand :
    let args := { settlingArguments with definitions := [] }
    meetingConfig.given.reverse.Perm meetingConfig.given ∧
      ∃ options options', args.options meetingConfig = .ok options ∧
        args.options (meetingConfig.inOrder meetingConfig.given.reverse) = .ok options' ∧
        options.predefined.get? "brand".toList = some "#000000".toList ∧
        options'.predefined.get? "brand".toList = some "#FFFFFF".toList :=
  ⟨List.reverse_perm _, _, _, rfl, rfl, by decide, by decide⟩

end CssResources
