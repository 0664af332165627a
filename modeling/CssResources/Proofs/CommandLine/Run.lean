import CssResources.CommandLine.Run
import CssResources.Proofs.Disk

/-!
# What a run leaves on the disk

A run reads up to two files, and it writes one, as its last step. So a run that stops before it
has changed nothing, and it is enough to say of each step when it goes on. Every action on the way
either **fails and leaves the disk as it is** (`CssResources.FailsOn`) or goes on with what it
found:

| action | goes on if | otherwise |
|---|---|---|
| reading a text | `CssResources.perform_readText` | `CssResources.readText_failsOn` |
| the configuration | `Arguments.perform_loadConfig` | `Arguments.loadConfig_failsOn` |
| converting a file | `CssResources.perform_convertFile` | `CssResources.convertFile_failsOn` |
| the whole conversion | `CssResources.perform_convert` | `CssResources.convert_failsOn` |

What has to be there for the whole of it is `CssResources.Arguments.GoesThrough`, and a run ends
well exactly if it is (`CssResources.exitCode_run_eq_zero_iff`). Nothing is asked of the paths:
the document may be written over the stylesheet, or over the configuration.
-/

namespace CssResources

variable {d : Disk}

/-! ### Actions on a disk -/

/-- **The result of an action on a disk**, with the disk that it leaves. -/
def Disk.perform {α : Type} (d : Disk) (action : StateM Disk α) : α × Disk := action.run d

section Perform

variable {α β : Type}

@[simp] theorem Disk.perform_pure (a : α) : d.perform (pure a) = (a, d) := rfl

@[simp] theorem Disk.perform_bind (action : StateM Disk α) (next : α → StateM Disk β) :
    d.perform (action >>= next) = (d.perform action).2.perform (next (d.perform action).1) := rfl

@[simp] theorem Disk.perform_map (f : α → β) (action : StateM Disk α) :
    d.perform (f <$> action) = (f (d.perform action).1, (d.perform action).2) := rfl

@[simp] theorem Disk.perform_get : d.perform get = (d, d) := rfl

@[simp] theorem Disk.perform_set (d' : Disk) : d.perform (set d') = (⟨⟩, d') := rfl

@[simp] theorem Disk.perform_hasPath (path : Text) :
    d.perform (Host.hasPath path) = (d.hasPath path, d) := rfl

@[simp] theorem Disk.perform_readBytes (path : Text) :
    d.perform (Host.readBytes path) = (d.readBytes path, d) := rfl

@[simp] theorem Disk.perform_clock : d.perform Host.clock = (0, d) := rfl

/-- **An action fails on a disk**, and leaves the disk as it is. -/
def FailsOn {ε : Type} (action : StateM Disk (Except ε α)) (d : Disk) : Prop :=
  ∃ e, d.perform action = (.error e, d)

end Perform

/-- A write along a path that leads to a place changes the file there. -/
theorem perform_writeText {path t : Text} {place : Place} (h : d.LeadsTo path place) :
    d.perform (Host.writeText path t) = (.ok (), d.put place (utf8Bytes t)) := by
  have hwrite : d.writeText path t = .ok (d.put place (utf8Bytes t)) :=
    Disk.writeText_eq_ok_iff.mpr ⟨place, h, rfl⟩
  simp [Host.writeText, hwrite]

/-- A write along another path fails. -/
theorem writeText_failsOn {path t : Text} (h : ¬ ∃ place, d.LeadsTo path place) :
    FailsOn (Host.writeText path t) d := by
  cases hwrite : d.writeText path t with
  | error fault => exact ⟨fault, by simp [Host.writeText, hwrite]⟩
  | ok after =>
    obtain ⟨place, hplace, -⟩ := Disk.writeText_eq_ok_iff.mp hwrite
    exact absurd ⟨place, hplace⟩ h

/-! ### Reading -/

/-- The text of a file is read. -/
theorem perform_readText {path t : Text} (h : d.text? path = some t) :
    d.perform (readText path) = (.ok t, d) := by
  obtain ⟨bytes, hbytes, ht⟩ := Option.bind_eq_some_iff.mp h
  cases hread : d.readBytes path with
  | error fault => simp [hread, Except.toOption] at hbytes
  | ok read =>
    obtain rfl : read = bytes := by simpa [hread, Except.toOption] using hbytes
    simp [readText, hread, ht]

/-- What is no text is not. -/
theorem readText_failsOn {path : Text} (h : d.text? path = none) :
    FailsOn (readText path) d := by
  cases hread : d.readBytes path with
  | error fault => exact ⟨fault, by simp [readText, hread]⟩
  | ok bytes =>
    have ht : textOfUtf8? bytes = none := by simpa [Disk.text?, hread, Except.toOption] using h
    exact ⟨.notUtf8, by simp [readText, hread, ht]⟩

/-- **The configuration of a command line**: that of the file which is named, if it is the text
of one, or the one that sets nothing. -/
def Arguments.configOn? (args : Arguments) (d : Disk) : Option Config :=
  match args.config? with
  | some path => (d.text? path).bind fun t => (Config.ofText path t).toOption
  | none => some {}

variable {args : Arguments} {config : Config}

theorem Arguments.perform_loadConfig (h : args.configOn? d = some config) :
    d.perform args.loadConfig = (.ok config, d) := by
  rw [configOn?] at h
  cases hpath : args.config? with
  | none =>
    rw [hpath, Option.some.injEq] at h
    simp [loadConfig, hpath, h]
  | some path =>
    simp only [hpath, Option.bind_eq_some_iff] at h
    obtain ⟨t, ht, hconfig⟩ := h
    cases hread : Config.ofText path t with
    | error fault => simp [hread, Except.toOption] at hconfig
    | ok read =>
      obtain rfl : read = config := by simpa [hread, Except.toOption] using hconfig
      simp [loadConfig, CssResources.loadConfig, hpath, perform_readText ht, hread]

theorem Arguments.loadConfig_failsOn (h : args.configOn? d = none) :
    FailsOn args.loadConfig d := by
  rw [configOn?] at h
  cases hpath : args.config? with
  | none => simp [hpath] at h
  | some path =>
    simp only [hpath] at h
    cases htext : d.text? path with
    | none =>
      obtain ⟨fault, hfault⟩ := readText_failsOn htext
      exact ⟨_, by simp [loadConfig, CssResources.loadConfig, hpath, hfault]; rfl⟩
    | some t =>
      cases hread : Config.ofText path t with
      | error fault =>
        exact ⟨.invalidFormat fault, by
          simp [loadConfig, CssResources.loadConfig, hpath, perform_readText htext, hread]⟩
      | ok read => simp [htext, hread, Except.toOption] at h

/-! ### A conversion -/

/-- **A conversion goes through on a disk**: its options are those of the command line and of the
configuration, the stylesheet is a text, and its path leads a writer to a place for the
document. -/
structure Arguments.GoesThrough (args : Arguments) (d : Disk) (options : Options) (source : Text)
    (place : Place) : Prop where
  /-- The configuration can be read, and every definition has the form of one. -/
  options_eq : ∃ config, args.configOn? d = some config ∧ args.options config = .ok options
  /-- The stylesheet is a text. -/
  text_eq : d.text? args.input = some source
  /-- The document can be written. -/
  leadsTo : d.LeadsTo args.output place

variable {options : Options} {source : Text} {place : Place}

theorem perform_convertFile {input output : Text} (hsource : d.text? input = some source)
    (hplace : d.LeadsTo output place) :
    d.perform (convertFile options input output) =
      (.ok (convert options source).statistics,
        d.put place (utf8Bytes (convert options source).document)) := by
  simp [convertFile, perform_readText hsource, perform_writeText hplace]

theorem convertFile_failsOn {input output : Text}
    (h : d.text? input = none ∨ ¬ ∃ place, d.LeadsTo output place) :
    FailsOn (convertFile options input output) d := by
  cases htext : d.text? input with
  | none =>
    obtain ⟨fault, hfault⟩ := readText_failsOn htext
    exact ⟨.fileNotFound (.source input fault), by simp [convertFile, hfault]⟩
  | some source =>
    have hplace : ¬ ∃ place, d.LeadsTo output place := h.resolve_left (by simp [htext])
    obtain ⟨fault, hfault⟩ := writeText_failsOn (t := (convert options source).document) hplace
    exact ⟨.io fault, by simp [convertFile, perform_readText htext, hfault]⟩

/-- **A conversion that goes through writes its document.** -/
theorem perform_convert (h : args.GoesThrough d options source place) :
    d.perform args.convert =
      (.ok (options.mode, (convert options source).statistics),
        d.put place (utf8Bytes (convert options source).document)) := by
  obtain ⟨config, hconfig, hoptions⟩ := h.options_eq
  simp [Arguments.convert, Arguments.perform_loadConfig hconfig, Disk.hasPath_of_text? h.text_eq,
    hoptions, perform_convertFile h.text_eq h.leadsTo]

/-- **A conversion that does not go through fails**, at whichever step it is. -/
theorem convert_failsOn (h : ¬ ∃ options source place, args.GoesThrough d options source place) :
    FailsOn args.convert d := by
  cases hconfig : args.configOn? d with
  | none =>
    obtain ⟨e, he⟩ := Arguments.loadConfig_failsOn hconfig
    exact ⟨e, by simp [Arguments.convert, he]⟩
  | some config =>
    have hload := Arguments.perform_loadConfig hconfig
    cases hpath : d.hasPath args.input with
    | false =>
      exact ⟨.fileNotFound (.input args.input), by simp [Arguments.convert, hload, hpath]⟩
    | true =>
      cases hoptions : args.options config with
      | error fault =>
        exact ⟨.invalidFormat fault, by simp [Arguments.convert, hload, hpath, hoptions]⟩
      | ok options =>
        have hfails : FailsOn (convertFile options args.input args.output) d := by
          apply convertFile_failsOn
          cases htext : d.text? args.input with
          | none => exact Or.inl rfl
          | some source =>
            refine Or.inr fun ⟨place, hplace⟩ => h ⟨options, source, place, ?_⟩
            exact ⟨⟨config, hconfig, hoptions⟩, htext, hplace⟩
        obtain ⟨e, he⟩ := hfails
        exact ⟨e, by simp [Arguments.convert, hload, hpath, hoptions, he]⟩

/-! ### A run -/

/-- **A command line that asks for one conversion.** -/
structure AsksForConversion (list : List Text) (args : Arguments) : Prop where
  /-- The command line can be read. -/
  ofList_eq : Arguments.ofList list = .ok args
  /-- The stylesheet is not to be watched. -/
  watch_notMem : .watch ∉ args.flags

variable {list : List Text}

/-- What is printed by a run that goes through. -/
def Arguments.report (args : Arguments) (options : Options) (s : Statistics) : Report where
  exitCode := 0
  output := successText options.mode args.output s ++ if .stats ∈ args.flags then s.json 0 else []

/-- A run that goes through reports what it did. -/
theorem perform_run (hlist : AsksForConversion list args)
    (h : args.GoesThrough d options source place) :
    d.perform (run list) =
      (args.report options (convert options source).statistics,
        d.put place (utf8Bytes (convert options source).document)) := by
  simp [run, hlist.ofList_eq, perform_convert h, Arguments.report]

/-- A run that does not go through reports an error, and leaves the disk as it is. -/
theorem perform_run_of_not_goesThrough (hlist : AsksForConversion list args)
    (h : ¬ ∃ options source place, args.GoesThrough d options source place) :
    ∃ e : ConvertError, d.perform (run list) = ({ exitCode := 1, errors := e.report }, d) := by
  obtain ⟨e, he⟩ := convert_failsOn h
  exact ⟨e, by simp [run, hlist.ofList_eq, he]⟩

/-- **A run ends well exactly if it goes through.** -/
theorem exitCode_run_eq_zero_iff (hlist : AsksForConversion list args) :
    (d.perform (run list)).1.exitCode = 0 ↔
      ∃ options source place, args.GoesThrough d options source place := by
  refine ⟨fun hcode => Classical.byContradiction fun h => ?_,
    fun ⟨options, source, place, h⟩ => ?_⟩
  · obtain ⟨e, he⟩ := perform_run_of_not_goesThrough hlist h
    rw [he] at hcode
    exact absurd hcode Nat.one_ne_zero
  · rw [perform_run hlist h]
    rfl

/-- **The statistics that are printed hold the size of the document**, on a line of its own. -/
theorem exists_json_eq (s : Statistics) (milliseconds : Nat) :
    ∃ before after, s.json milliseconds =
      before ++ "\n  \"output_size\": ".toList ++ natText s.outputSize ++ [',', '\n'] ++ after := by
  have hname : "\n  \"output_size\": ".toList =
      '\n' :: ("  \"".toList ++ "output_size".toList ++ "\": ".toList) := by decide
  -- The size of the document comes second, between the line before and the line after.
  obtain ⟨first, third, lines, hjson⟩ : ∃ first third lines, s.json milliseconds =
      ['{', '\n'] ++ ((first ::
        ("  \"".toList ++ "output_size".toList ++ "\": ".toList ++ natText s.outputSize) ::
        third :: lines).intersperse [',', '\n']).flatten ++ ['\n', '}', '\n'] := ⟨_, _, _, rfl⟩
  refine ⟨['{', '\n'] ++ first ++ [','],
    ((third :: lines).intersperse [',', '\n']).flatten ++ ['\n', '}', '\n'], ?_⟩
  rw [hjson, hname, List.intersperse_cons_cons, List.intersperse_cons_cons]
  simp only [List.flatten_cons, List.append_assoc, List.cons_append, List.nil_append]

/-- **A run changes no file but its output, and this one only if it succeeds.** A run that ends
with an error leaves the disk as it was, whichever step failed. A run that ends well leaves at
the path of the output the document of the stylesheet's text under the options of the
configuration and the command line, in UTF-8, also over the stylesheet itself; nothing else on
the disk is another than before, and the size that is reported is the number of bytes written. -/
theorem run_changes_output_alone (hlist : AsksForConversion list args) {report : Report}
    {after : Disk} (hrun : d.perform (run list) = (report, after)) :
    (report.exitCode ≠ 0 → after = d) ∧
    (report.exitCode = 0 → ∃ options source place,
      args.GoesThrough d options source place ∧
      after = d.put place (utf8Bytes (convert options source).document) ∧
      after.text? args.output = some (convert options source).document ∧
      (.stats ∈ args.flags → ∃ before rest, report.output =
        before ++ "\n  \"output_size\": ".toList ++
          natText (utf8Bytes (convert options source).document).size ++ [',', '\n'] ++ rest)) := by
  by_cases h : ∃ options source place, args.GoesThrough d options source place
  · obtain ⟨options, source, place, hthrough⟩ := h
    rw [perform_run hlist hthrough, Prod.mk.injEq] at hrun
    obtain ⟨rfl, rfl⟩ := hrun
    refine ⟨fun hcode => absurd rfl hcode, fun _ => ⟨options, source, place, hthrough, rfl,
      Disk.text?_put_utf8Bytes hthrough.leadsTo, fun hstats => ?_⟩⟩
    obtain ⟨before, rest, hjson⟩ := exists_json_eq (convert options source).statistics 0
    refine ⟨successText options.mode args.output (convert options source).statistics ++ before,
      rest, ?_⟩
    rw [size_utf8Bytes]
    simp only [Arguments.report, if_pos hstats, hjson, List.append_assoc]
    rfl
  · obtain ⟨e, he⟩ := perform_run_of_not_goesThrough hlist h
    rw [he, Prod.mk.injEq] at hrun
    obtain ⟨rfl, rfl⟩ := hrun
    exact ⟨fun _ => rfl, fun hcode => absurd hcode Nat.one_ne_zero⟩

/-- A stylesheet that its own document is written over. -/
theorem run_changes_output_alone_over_input :
    let source := ".a { color: red; }".toList
    let d : Disk := Disk.put {} ["a.css".toList] (utf8Bytes source)
    let list := ["--stats".toList, "a.css".toList, "a.css".toList]
    let args : Arguments :=
      { input := "a.css".toList, output := "a.css".toList, config? := none, stylePrefix? := none,
        definitions := [], flags := [.stats] }
    AsksForConversion list args ∧ args.GoesThrough d {} source ["a.css".toList] ∧
      (d.perform (run list)).1.exitCode = 0 ∧
      ∃ options source place, args.GoesThrough d options source place ∧
        (d.perform (run list)).2.text? args.output = some (convert options source).document := by
  intro source d list args
  have hlist : AsksForConversion list args := ⟨rfl, by decide⟩
  have hthrough : args.GoesThrough d {} source ["a.css".toList] :=
    { options_eq := ⟨{}, rfl, rfl⟩
      text_eq := Disk.text?_put_utf8Bytes (Or.inr rfl)
      leadsTo := Or.inl rfl }
  have hcode : (d.perform (run list)).1.exitCode = 0 := by rw [perform_run hlist hthrough]; rfl
  obtain ⟨options, source', place, h, -, htext, -⟩ :=
    (run_changes_output_alone hlist (d := d) rfl).2 hcode
  exact ⟨hlist, hthrough, hcode, options, source', place, h, htext⟩

end CssResources
