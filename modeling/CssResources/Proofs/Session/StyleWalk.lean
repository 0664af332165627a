import CssResources.Proofs.Session.StyleMeaning
import CssResources.Proofs.Variable.Substitution
import Mathlib.Data.List.Basic

/-!
# The walk through the rules finds their meaning

The state of a session for styles after some of the rules **is** what the rules so far mean
(`CssResources.Session.Reflects`): its table of custom properties gives each name its last
definition, its styles are those of the selectors met, and each has the translations that
went to it written into it. One declaration takes the invariant to the next
(`CssResources.Session.Reflects.declare`), and so does the beginning of one rule
(`CssResources.Session.Reflects.openRule`), which may give several selectors one style, or
give a style nothing. That this is enough for all rules is said once, for any property that
both keep (`CssResources.Session.rules_induction`).

What `CssResources.meaningOf` says is then read off the last state
(`CssResources.gather_styles_eq_meaningOf`).
-/

namespace CssResources

variable {options : Options}

/-! ### Translations, one declaration more -/

theorem translationsAfter_append (options : Options) (before sites sites' : List Site) :
    translationsAfter options before (sites ++ sites') =
      translationsAfter options before sites
        ++ translationsAfter options (before ++ sites) sites' := by
  induction sites generalizing before with
  | nil => simp [translationsAfter]
  | cons site sites ih => simp [translationsAfter, ih]

/-- One declaration more adds its items to the styles of its rule, if it is successful. -/
theorem translationsTo_concat (options : Options) (name : Text) (sites : List Site) (site : Site) :
    translationsTo options name (sites ++ [site]) =
      translationsTo options name sites ++
        match site.2.items? options sites with
        | some items => if name ∈ site.1.styleNames options then [(site.2.property, items)] else []
        | none => [] := by
  rw [translationsTo, translationsOf, translationsAfter_append, List.filter_append,
    List.map_append, translationsTo, translationsOf]
  congr 1
  cases h : site.2.items? options sites with
  | none => simp [translationsAfter, h]
  | some items =>
    by_cases hname : name ∈ site.1.styleNames options <;> simp [translationsAfter, h, hname]

/-- **Each translation is that of a declaration**, after the declarations before it. -/
theorem exists_of_mem_translationsAfter {before sites : List Site} {w : Rule × Text × List Item}
    (h : w ∈ translationsAfter options before sites) :
    ∃ first site rest, sites = first ++ site :: rest ∧ site.1 = w.1 ∧ site.2.property = w.2.1 ∧
      site.2.items? options (before ++ first) = some w.2.2 := by
  induction sites generalizing before with
  | nil => simp [translationsAfter] at h
  | cons site sites ih =>
    rcases List.mem_append.mp h with h | h
    · obtain ⟨items, hitems, rfl⟩ : ∃ items, site.2.items? options before = some items ∧
          (site.1, site.2.property, items) = w := by simpa using h
      exact ⟨[], site, sites, rfl, rfl, rfl, by simpa using hitems⟩
    · obtain ⟨first, site', rest, rfl, hrule, hproperty, hitems⟩ := ih h
      exact ⟨site :: first, site', rest, rfl, hrule, hproperty, by simpa using hitems⟩

/-- A translation that goes to a style is that of a declaration for this style. -/
theorem exists_of_mem_translationsTo {name : Text} {sites : List Site} {w : Text × List Item}
    (h : w ∈ translationsTo options name sites) :
    ∃ before site after, sites = before ++ site :: after ∧ name ∈ site.1.styleNames options ∧
      site.2.property = w.1 ∧ site.2.items? options before = some w.2 := by
  obtain ⟨w', hw', rfl⟩ := List.mem_map.mp h
  obtain ⟨hmem, hname⟩ := List.mem_filter.mp hw'
  obtain ⟨before, site, after, hsites, hrule, hproperty, hitems⟩ :=
    exists_of_mem_translationsAfter hmem
  exact ⟨before, site, after, hsites, by simpa [hrule] using hname, hproperty, hitems⟩

/-- The rules of the translations are rules of the declarations. -/
theorem fst_of_mem_translationsAfter {before sites : List Site} {w : Rule × Text × List Item}
    (h : w ∈ translationsAfter options before sites) : ∃ site ∈ sites, site.1 = w.1 := by
  obtain ⟨first, site, rest, rfl, hrule, -⟩ := exists_of_mem_translationsAfter h
  exact ⟨site, by simp, hrule⟩

/-- Nothing goes to a style that no rule is for. -/
theorem translationsTo_eq_nil {name : Text} {sites : List Site}
    (h : ∀ site ∈ sites, name ∉ site.1.styleNames options) :
    translationsTo options name sites = [] := by
  rw [translationsTo, List.map_eq_nil_iff, List.filter_eq_nil_iff]
  intro w hw
  obtain ⟨site, hsite, hrule⟩ := fst_of_mem_translationsAfter hw
  simpa [← hrule] using h site hsite

/-! ### Custom properties have no counterpart -/

/-- No property with a counterpart begins with two dashes. -/
theorem ofName?_eq_none_of_customName? {d : Declaration} {name : Text}
    (h : d.customName? = some name) : Property.ofName? d.property = none := by
  cases hp : Property.ofName? d.property with
  | none => rfl
  | some p =>
    have hnone : ∀ p ∈ Property.all, afterStart? "--".toList p.name = none := by decide
    rw [Declaration.customName?, ← Property.name_of_ofName? hp, hnone p p.mem_all] at h
    exact absurd h (by simp)

theorem items?_of_customName? {d : Declaration} {name : Text} (h : d.customName? = some name)
    (before : List Site) : d.items? options before = none := by
  simp [Declaration.items?, ofName?_eq_none_of_customName? h]

/-! ### Values without references -/

/-- A value without a reference is translated as it is. -/
theorem items?_of_none {d : Declaration} (before : List Site)
    (h : firstReference? (stripImportant d.value) = none)
    (hproperty : (Property.ofName? d.property).isSome = true)
    (htoken : hasUnsupportedToken (stripImportant d.value) = false)
    (hitems : (translate d.property (stripImportant d.value)).items ≠ []) :
    d.items? options before = some (translate d.property (stripImportant d.value)).items := by
  have hnone : (Property.ofName? d.property).isNone = false :=
    Option.isNone_eq_false_iff.mpr hproperty
  rw [Declaration.items?, resolve_of_none h]
  simp only [hnone, htoken, Bool.or_self, Bool.false_eq_true, if_false]

/-! ### Changes to the styles -/

namespace StyleTable

/-- Styles that are ensured are there, and those that were there stay as they are. -/
theorem get?_ensure (styles : StyleTable) {names : List Text} (h : names.Nodup) (name : Text) :
    (ensure styles names).get? name =
      if name ∈ names then some ((styles.get? name).getD ∅) else styles.get? name :=
  (OrderedMap.get?_foldl_alter styles h (·.getD ∅) name).trans (by congr)

theorem keys_ensure (styles : StyleTable) (names : List Text) :
    (ensure styles names).keys = (styles.keys ++ names).eraseDups :=
  OrderedMap.keys_foldl_alter styles names _

/-- Items that are given to styles stand in these styles and in no other. -/
theorem get?_write (styles : StyleTable) {names : List Text} (h : names.Nodup) (property : Text)
    (items : List Item) (name : Text) :
    (write styles names property items).get? name =
      if name ∈ names then some (((styles.get? name).getD ∅).insert property items)
      else styles.get? name :=
  (OrderedMap.get?_foldl_alter styles h (fun s? => (s?.getD ∅).insert property items) name).trans
    (by congr)

theorem keys_write (styles : StyleTable) (names : List Text) (property : Text)
    (items : List Item) :
    (write styles names property items).keys = (styles.keys ++ names).eraseDups :=
  OrderedMap.keys_foldl_alter styles names _

end StyleTable

/-! ### Through the rules -/

namespace Session

/-- The session when a rule begins: its rejected selectors are reported, and its styles are
ensured. -/
def openRule (options : Options) (s : Session) (r : Rule) : Session :=
  { s.report r.rejections with styles := s.styles.ensure (r.targets options) }

/-- The session within a rule for styles, after these declarations of it. -/
def within (options : Options) (s : Session) (r : Rule) (ds : List Declaration) : Session :=
  ds.foldl (declare .styles (r.targets options)) (s.openRule options r)

/-- A rule for styles is taken in declaration by declaration. -/
theorem rule_eq_within (hmode : options.mode = .styles) (s : Session) (r : Rule) :
    s.rule options r = s.within options r r.declarations := by
  rw [Session.rule, hmode]
  rfl

theorem within_append (s : Session) (r : Rule) (ds es : List Declaration) :
    s.within options r (ds ++ es) =
      es.foldl (declare .styles (r.targets options)) (s.within options r ds) :=
  List.foldl_append

theorem within_concat (s : Session) (r : Rule) (ds : List Declaration) (d : Declaration) :
    s.within options r (ds ++ [d]) =
      (s.within options r ds).declare .styles (r.targets options) d :=
  within_append s r ds [d]

section Declarations

variable {targets : List Text} {s : Session} {p : Property} {d : Declaration}

/-- A declaration that is converted to items is written into styles, and reported. -/
theorem apply_of_some {items : List Item} {ds : List Diagnostic} (targets : List Text)
    (h : d.convert s.table p = (some items, ds)) :
    s.apply targets p d =
      { s.report ds with styles := s.styles.write targets d.property items } := by
  simp only [Session.apply, h]
  rfl

/-- A declaration that is converted to no items is reported. -/
theorem apply_of_none {ds : List Diagnostic} (targets : List Text)
    (h : d.convert s.table p = (none, ds)) : s.apply targets p d = s.report ds := by
  simp only [Session.apply, h]

/-- A declaration goes to the styles of its rule if it is no custom property and has a
counterpart. -/
theorem declare_of_ofName? (mode : Mode) (hd : d.customName? = none)
    (hp : Property.ofName? d.property = some p) (htargets : targets ≠ []) :
    s.declare mode targets d = s.apply targets p d := by
  have hempty : targets.isEmpty = false := List.isEmpty_eq_false_iff.mpr htargets
  rw [Session.declare, hd]
  simp [hempty, hp]

/-- **Other declarations are passed over.** -/
theorem declare_of_skipped (mode : Mode) (hd : d.customName? = none)
    (h : Property.ofName? d.property = none ∨ targets = []) : s.declare mode targets d = s := by
  rw [Session.declare, hd]
  rcases h with h | rfl
  · simp [h]
  · rfl

end Declarations

/-- **What holds through the rules.** A property of the names and declarations met, and of the
session after them, holds at the end if the beginning of each rule keeps it, and each declaration
of a rule whose names were met. -/
theorem rules_induction {P : List Text → List Site → Session → Prop}
    (hmode : options.mode = .styles)
    (hopen : ∀ {names sites s} (r : Rule), P names sites s →
      P (names ++ r.styleNames options) sites (s.openRule options r))
    (hdeclare : ∀ {names sites s} {r : Rule} {d : Declaration},
      (∀ n ∈ r.styleNames options, n ∈ names) → P names sites s →
        P names (sites ++ [(r, d)]) (s.declare .styles (r.targets options) d))
    {names : List Text} {sites : List Site} {s : Session} (h : P names sites s) (rs : List Rule) :
    P (names ++ rs.flatMap (Rule.styleNames options)) (sites ++ sitesOf rs)
      (s.rules options rs) := by
  induction rs generalizing names sites s with
  | nil => simpa [Session.rules, sitesOf] using h
  | cons r rs ih =>
    have hdeclarations : ∀ (ds : List Declaration) {sites s},
        P (names ++ r.styleNames options) sites s →
          P (names ++ r.styleNames options) (sites ++ ds.map (r, ·))
            (ds.foldl (Session.declare .styles (r.targets options)) s) := by
      intro ds
      induction ds with
      | nil => exact fun h => by simpa using h
      | cons d ds ihds =>
        exact fun h => by
          simpa using ihds (hdeclare (fun n hn => List.mem_append_right _ hn) h)
    simpa [Session.rules, sitesOf, rule_eq_within hmode, within] using
      ih (hdeclarations r.declarations (hopen r h))

end Session

/-! ### The invariant -/

namespace Session

/-- **A session that has seen style names and declarations holds what they mean.** -/
structure Reflects (options : Options) (names : List Text) (sites : List Site) (s : Session) :
    Prop where
  /-- A custom property has the value of its last definition. -/
  table : ∀ name, s.table.value? name = lastValue? name (definitionsAfter options sites)
  /-- The styles come in the order in which their names were met. -/
  keys : s.styles.keys = names.eraseDups
  /-- Each style has the translations that went to it written into it. -/
  styles : ∀ name, s.styles.get? name =
    if name ∈ names then some (OrderedMap.write ∅ (translationsTo options name sites)) else none
  /-- The declarations seen are for styles whose names were met. -/
  names : ∀ site ∈ sites, ∀ name ∈ site.1.styleNames options, name ∈ names

variable {names : List Text} {sites : List Site} {s : Session}

/-- Reports change nothing that is reflected. -/
theorem Reflects.report (h : s.Reflects options names sites) (ds : List Diagnostic) :
    (s.report ds).Reflects options names sites :=
  ⟨h.table, h.keys, h.styles, h.names⟩

variable {r : Rule} {d : Declaration}

/-- The declarations seen, with one more of a rule whose names were met. -/
theorem Reflects.names_concat (h : s.Reflects options names sites)
    (hr : ∀ n ∈ r.styleNames options, n ∈ names) :
    ∀ site ∈ sites ++ [(r, d)], ∀ n ∈ site.1.styleNames options, n ∈ names := by
  intro site hsite
  rcases List.mem_append.mp hsite with hsite | hsite
  · exact h.names site hsite
  · obtain rfl := List.mem_singleton.mp hsite
    exact hr

/-- **A custom property is defined** for the declarations after it, and goes to no style. -/
theorem Reflects.define (h : s.Reflects options names sites)
    (hr : ∀ n ∈ r.styleNames options, n ∈ names) {name : Text} (hd : d.customName? = some name) :
    (s.define .styles name (stripImportant d.value) d.line).Reflects options names
      (sites ++ [(r, d)]) := by
  refine ⟨fun other => ?_, h.keys, fun other => ?_, h.names_concat hr⟩
  -- the definition is the last one so far
  · have hdefs : definitionsAfter options (sites ++ [(r, d)]) =
        definitionsAfter options sites ++ [(name, stripImportant d.value)] := by
      simp [definitionsAfter, Declaration.definition?, hd]
    rw [hdefs, lastValue?_concat, ← h.table other]
    exact VariableTable.value?_define s.table name other (stripImportant d.value) d.line
  · rw [translationsTo_concat, items?_of_customName? hd]
    simpa [Session.define] using h.styles other

/-- A declaration that is no custom property and is not successful changes nothing. -/
theorem Reflects.skip (h : s.Reflects options names sites)
    (hr : ∀ n ∈ r.styleNames options, n ∈ names) (hd : d.customName? = none)
    (hitems : r.styleNames options = [] ∨ d.items? options sites = none) :
    s.Reflects options names (sites ++ [(r, d)]) := by
  refine ⟨fun other => ?_, h.keys, fun other => ?_, h.names_concat hr⟩
  · simpa [definitionsAfter, Declaration.definition?, hd] using h.table other
  · rw [h.styles other, translationsTo_concat]
    rcases hitems with hnil | hnone
    · cases d.items? options sites <;> simp [hnil]
    · simp [hnone]

/-- **A successful declaration is written into the styles of its rule**, in place of what they
have for its property. -/
theorem Reflects.write (h : s.Reflects options names sites)
    (hr : ∀ n ∈ r.styleNames options, n ∈ names) (hd : d.customName? = none) {items : List Item}
    (hitems : d.items? options sites = some items) :
    ({ s with styles := s.styles.write (r.targets options) d.property items } :
      Session).Reflects options names (sites ++ [(r, d)]) := by
  have hmem : ∀ n, n ∈ r.targets options ↔ n ∈ r.styleNames options := fun n => List.mem_eraseDups
  refine ⟨fun other => ?_, ?_, fun other => ?_, h.names_concat hr⟩
  · simpa [definitionsAfter, Declaration.definition?, hd] using h.table other
  · have hsubset : ∀ n ∈ r.targets options, n ∈ names.eraseDups := fun n hn =>
      List.mem_eraseDups.mpr (hr n ((hmem n).mp hn))
    rw [StyleTable.keys_write, h.keys, eraseDups_append_of_nodup (nodup_eraseDups names) hsubset]
  · have hnodup : (r.targets options).Nodup := nodup_eraseDups _
    rw [StyleTable.get?_write _ hnodup, h.styles other, translationsTo_concat, hitems]
    by_cases hother : other ∈ r.styleNames options
    · simp [hmem, hother, hr other hother, OrderedMap.write_concat]
    · simp [hmem, hother]

/-- The items of a declaration are those that it is converted to. -/
theorem Reflects.convert_fst (h : s.Reflects options names sites) {p : Property}
    (hp : Property.ofName? d.property = some p) :
    (d.convert s.table p).1 = d.items? options sites := by
  have hlookup : s.table.value? = fun name => lastValue? name (definitionsAfter options sites) :=
    funext h.table
  simp only [Declaration.convert, Declaration.items?, VariableTable.resolve, hlookup, hp,
    Option.isNone_some, Bool.false_or]
  split
  · rfl
  · generalize (translate d.property (Resolution.value _)).items = items
    cases items <;> rfl

/-- **A declaration with a counterpart** is written into the styles of its rule or changes
nothing, as it is successful or not. -/
theorem Reflects.apply (h : s.Reflects options names sites)
    (hr : ∀ n ∈ r.styleNames options, n ∈ names) (hd : d.customName? = none) {p : Property}
    (hp : Property.ofName? d.property = some p) :
    (s.apply (r.targets options) p d).Reflects options names (sites ++ [(r, d)]) := by
  have hfst := h.convert_fst hp
  obtain ⟨items?, ds, hconvert⟩ : ∃ items? ds, d.convert s.table p = (items?, ds) := ⟨_, _, rfl⟩
  rw [hconvert] at hfst
  cases items? with
  | none =>
    rw [apply_of_none _ hconvert]
    exact (h.report ds).skip hr hd (.inr hfst.symm)
  | some items =>
    rw [apply_of_some _ hconvert]
    exact (h.report ds).write hr hd hfst.symm

/-- **A declaration takes what is reflected to what is reflected.** -/
theorem Reflects.declare (h : s.Reflects options names sites)
    (hr : ∀ n ∈ r.styleNames options, n ∈ names) :
    (s.declare .styles (r.targets options) d).Reflects options names (sites ++ [(r, d)]) := by
  cases hd : d.customName? with
  | some name =>
    rw [Session.declare, hd]
    exact h.define hr hd
  | none =>
    cases hp : Property.ofName? d.property with
    | none =>
      rw [declare_of_skipped _ hd (.inl hp)]
      exact h.skip hr hd (.inr (by simp [Declaration.items?, hp]))
    | some p =>
      rcases eq_or_ne (r.targets options) [] with hnil | hne
      -- a rule without styles has nothing to give its items to
      · rw [declare_of_skipped _ hd (.inr hnil)]
        refine h.skip hr hd (.inl (List.eq_nil_iff_forall_not_mem.mpr fun n hn => ?_))
        have hmem : n ∈ r.targets options := List.mem_eraseDups.mpr hn
        simp [hnil] at hmem
      · rw [declare_of_ofName? _ hd hp hne]
        exact h.apply hr hd hp

/-- **A rule that begins** has the styles of its selectors ensured. -/
theorem Reflects.openRule (h : s.Reflects options names sites) (r : Rule) :
    (s.openRule options r).Reflects options (names ++ r.styleNames options) sites := by
  have hmem : ∀ n, n ∈ r.targets options ↔ n ∈ r.styleNames options := fun n => List.mem_eraseDups
  have hstyles : (s.openRule options r).styles = s.styles.ensure (r.targets options) := rfl
  refine ⟨h.table, ?_, fun other => ?_, fun site hsite n hn =>
    List.mem_append_left _ (h.names site hsite n hn)⟩
  · rw [hstyles, StyleTable.keys_ensure, h.keys]
    exact eraseDups_eraseDups_append_eraseDups names (r.styleNames options)
  · have hnodup : (r.targets options).Nodup := nodup_eraseDups _
    rw [hstyles, StyleTable.get?_ensure _ hnodup, h.styles other]
    by_cases hother : other ∈ names
    · simp [hother]
    · -- no declaration seen is for a style that was not met
      have hnil : translationsTo options other sites = [] :=
        translationsTo_eq_nil fun site hsite hn => hother (h.names site hsite other hn)
      by_cases hnew : other ∈ r.styleNames options <;> simp [hmem, hother, hnew, hnil]

/-- **Rules take what is reflected to what is reflected.** -/
theorem Reflects.rules (h : s.Reflects options names sites) (hmode : options.mode = .styles)
    (rs : List Rule) :
    (s.rules options rs).Reflects options (names ++ rs.flatMap (Rule.styleNames options))
      (sites ++ sitesOf rs) :=
  rules_induction hmode (fun r h => h.openRule r) (fun hr h => h.declare hr) h rs

/-- **Before the first rule** the predefined custom properties are defined. -/
theorem reflects_start (hmode : options.mode = .styles) :
    (Session.start options).Reflects options [] [] := by
  have hstart : Session.start options =
      { table := OrderedMap.write ∅
          (options.predefined.entries.map fun e => (bareName e.1, ⟨e.2, 0⟩)) } := by
    rw [Session.start, hmode, OrderedMap.write, List.foldl_map]
    exact List.foldl_hom (fun table => ({ table } : Session)) fun _ _ => rfl
  refine ⟨fun name => ?_, by rw [hstart]; rfl, fun name => by rw [hstart]; rfl, by simp⟩
  rw [hstart, VariableTable.value?, OrderedMap.get?_write_empty, definitionsAfter,
    List.filterMap_nil, List.append_nil, Options.definitions, ← lastValue?_map, List.map_map]
  rfl

end Session

/-! ### The styles -/

/-- What lists that may be missing come to, one after the other. -/
theorem flatten_filterMap {α β : Type} (f : α → Option (List β)) (l : List α) :
    (l.filterMap f).flatten = l.flatMap fun a => (f a).getD [] := by
  induction l with
  | nil => rfl
  | cons a l ih => cases h : f a <;> simp [h, ih]

/-- **The styles of a session** have the names met, and the items of the translations that
went to them. -/
theorem Session.Reflects.mem_toStyles_iff {names : List Text} {sites : List Site} {s : Session}
    (h : s.Reflects options names sites) {style : Style} :
    style ∈ s.styles.toStyles ↔
      style.name ∈ names ∧ style = styleMeaning options sites style.name := by
  have hitems : ∀ name, (OrderedMap.write ∅ (translationsTo options name sites)).values.flatten =
      (styleMeaning options sites name).items := fun name => by
    rw [OrderedMap.values_write, flatten_filterMap]
    rfl
  rw [StyleTable.toStyles, List.mem_map]
  constructor
  · rintro ⟨⟨name, items⟩, hmem, rfl⟩
    have hget := OrderedMap.get?_eq_some_iff.mpr hmem
    rw [h.styles] at hget
    split at hget
    · rename_i hname
      obtain rfl := Option.some.inj hget
      refine ⟨hname, ?_⟩
      rw [hitems]
      rfl
    · simp at hget
  · rintro ⟨hname, hstyle⟩
    refine ⟨(style.name, OrderedMap.write ∅ (translationsTo options style.name sites)),
      OrderedMap.get?_eq_some_iff.mp (by rw [h.styles, if_pos hname]), ?_⟩
    rw [hitems]
    exact hstyle.symm

/-- A session for styles ends with the styles of its rules. -/
theorem mem_gather_styles_iff (hmode : options.mode = .styles) {rs : List Rule} {style : Style} :
    style ∈ (gather options rs).styles ↔
      style.name ∈ rs.flatMap (Rule.styleNames options) ∧
        style = styleMeaning options (sitesOf rs) style.name :=
  ((Session.reflects_start hmode).rules hmode rs).mem_toStyles_iff

/-- **A rule with one declaration gives its styles the items of it**, if there is nothing before. -/
theorem mem_gather_of_declaration (hmode : options.mode = .styles) {r : Rule} {d : Declaration}
    (hd : r.declarations = [d]) {name : Text} (hname : name ∈ r.styleNames options)
    {items : List Item} (hitems : d.items? options [] = some items) :
    { name, items } ∈ (gather options [r]).styles := by
  have hsites : sitesOf [r] = [] ++ [(r, d)] := by
    rw [sitesOf, List.flatMap_singleton, hd]
    rfl
  have htranslations : translationsTo options name (sitesOf [r]) = [(d.property, items)] := by
    rw [hsites, translationsTo_concat, hitems]
    dsimp only
    rw [if_pos hname]
    rfl
  refine (mem_gather_styles_iff hmode).mpr ⟨List.mem_flatMap.mpr ⟨r, List.mem_singleton_self r,
    hname⟩, ?_⟩
  dsimp only
  rw [styleMeaning, htranslations]
  simp [eraseDups_singleton, lastValue?]

/-! ### The theorem -/

/-- **The styles of a session are what its rules mean**: one for each name that a selector
stands for, in the order in which the names come, with the items of the last successful
translation of each property, in the order of the first. -/
theorem gather_styles_eq_meaningOf (options : Options) (hmode : options.mode = .styles)
    (rs : List Rule) : (gather options rs).styles = meaningOf options rs := by
  have h := (Session.reflects_start hmode).rules hmode rs
  rw [List.nil_append, List.nil_append] at h
  show StyleTable.toStyles _ = _
  rw [StyleTable.toStyles, OrderedMap.entries_eq_filterMap, h.keys, meaningOf, List.map_filterMap,
    ← List.filterMap_eq_map]
  refine List.filterMap_congr fun name hname => ?_
  rw [h.styles, if_pos (List.mem_eraseDups.mp hname), Option.map_some, Option.map_some,
    OrderedMap.values_write, flatten_filterMap]
  rfl

/-- Options with a beginning for every name, and one property from outside. -/
def themeOptions : Options where
  stylePrefix? := some "Theme.".toList
  predefined := TextMap.insert ∅ "--ink".toList "#112233".toList

/-- Rules that share a style, define a property between two uses of it, and write a property
twice, once in vain. -/
def themeRules : List Rule :=
  [{ selectors := [".card".toList, "p".toList, "a:hover".toList, ".card".toList]
     declarations :=
       [⟨"color".toList, "var(--ink)".toList, 2⟩,
        ⟨"--ink".toList, "#445566 !important".toList, 3⟩,
        ⟨"background-color".toList, "var(--ink)".toList, 4⟩,
        ⟨"color".toList, "auto".toList, 5⟩]
     line := 1 },
   { selectors := [".note".toList], declarations := [], line := 7 },
   { selectors := [".card".toList]
     declarations := [⟨"color".toList, "var(--ink)".toList, 9⟩]
     line := 8 }]

theorem gather_styles_eq_meaningOf_theme :
    themeOptions.mode = .styles ∧
      (gather themeOptions themeRules).styles = meaningOf themeOptions themeRules ∧
      (meaningOf themeOptions themeRules).map Style.name =
        ["Theme.card".toList, "Theme.P".toList, "Theme.note".toList] :=
  ⟨rfl, gather_styles_eq_meaningOf themeOptions rfl themeRules, by decide +kernel⟩

end CssResources
