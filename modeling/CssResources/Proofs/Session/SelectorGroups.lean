import CssResources.Proofs.Session.ColorWalk
import CssResources.Proofs.Session.StyleNames

/-!
# A rule with several selectors is the sum of its selectors

A rule with several selectors stands for one rule for each of them, with the same declarations
(`CssResources.Rule.split`), if it defines no custom property: the styles and the custom properties
are the same with either (`CssResources.gather_split`).

The sessions do not run alike. The rule ensures all its styles first, and then writes declaration
by declaration into each of them, once; its parts ensure and write style by style, and write a
style again for each selector with its name. What they end with is compared by what it reflects
(`CssResources.Session.Reflects`), style by style:

| | the rule | its parts |
|---|---|---|
| names, in order | of its selectors | the same (`CssResources.flatMap_styleNames_split`) |
| translations to a style | its own, or none | its own, once for each selector with the name |
| custom properties | as before | as before (`CssResources.Session.table_rules`) |

Translations that are written more than once in a row might as well be written once
(`CssResources.OrderedMap.write_write_self`).
-/

namespace CssResources

variable {options : Options}

/-! ### Custom properties -/

/-- The custom properties after a declaration. -/
def Declaration.defineIn (table : VariableTable) (d : Declaration) : VariableTable :=
  match d.customName? with
  | some name => VariableTable.define table name (stripImportant d.value) d.line
  | none => table

namespace Session

theorem table_define (mode : Mode) (s : Session) (name value : Text) (line : Nat) :
    (s.define mode name value line).table = VariableTable.define s.table name value line := by
  rw [Session.define]
  split <;> rfl

theorem table_apply (s : Session) (targets : List Text) (p : Property) (d : Declaration) :
    (s.apply targets p d).table = s.table := by
  rw [Session.apply.eq_1]
  split <;> rfl

theorem table_declare (mode : Mode) (targets : List Text) (s : Session) (d : Declaration) :
    (s.declare mode targets d).table = d.defineIn s.table := by
  rw [Session.declare, Declaration.defineIn]
  cases d.customName? with
  | some name => exact table_define mode s name _ _
  | none =>
    dsimp only
    split
    · rfl
    · cases Property.ofName? d.property with
      | some p => exact table_apply s targets p d
      | none => rfl

theorem table_foldl_declare (mode : Mode) (targets : List Text) (ds : List Declaration)
    (s : Session) :
    (ds.foldl (declare mode targets) s).table = ds.foldl Declaration.defineIn s.table := by
  induction ds generalizing s with
  | nil => rfl
  | cons d ds ih => rw [List.foldl_cons, ih, table_declare, List.foldl_cons]

/-- **The custom properties depend on the declarations only**, not on their rules. -/
theorem table_rules (options : Options) (rs : List Rule) (s : Session) :
    (s.rules options rs).table =
      (rs.flatMap Rule.declarations).foldl Declaration.defineIn s.table := by
  have hrule : ∀ (s : Session) (r : Rule),
      (s.rule options r).table = r.declarations.foldl Declaration.defineIn s.table := by
    intro s r
    rw [Session.rule]
    split <;> exact table_foldl_declare _ _ _ _
  induction rs generalizing s with
  | nil => rfl
  | cons r rs ih =>
    rw [rules, List.foldl_cons, ← rules, ih, hrule, List.flatMap_cons, List.foldl_append]

end Session

/-- Plain declarations leave the custom properties as they are. -/
theorem foldl_defineIn_of_plain {ds : List Declaration} (h : ∀ d ∈ ds, d.customName? = none)
    (table : VariableTable) : ds.foldl Declaration.defineIn table = table := by
  induction ds with
  | nil => rfl
  | cons d ds ih =>
    rw [List.foldl_cons, Declaration.defineIn, h d (List.mem_cons_self ..)]
    exact ih fun d hd => h d (List.mem_cons_of_mem _ hd)

/-- **Rules with plain declarations** change no custom property. -/
theorem table_rules_append_of_plain (before after : List Rule) {rs : List Rule}
    (h : ∀ r ∈ rs, ∀ d ∈ r.declarations, d.customName? = none) (s : Session) :
    (s.rules options (before ++ rs ++ after)).table =
      (s.rules options (before ++ after)).table := by
  have hplain : ∀ d ∈ rs.flatMap Rule.declarations, d.customName? = none := by
    intro d hd
    obtain ⟨r, hr, hd⟩ := List.mem_flatMap.mp hd
    exact h r hr d hd
  simp only [Session.table_rules, List.flatMap_append, List.foldl_append,
    foldl_defineIn_of_plain hplain]

/-! ### Translations after other declarations -/

theorem sitesOf_append (rs rs' : List Rule) : sitesOf (rs ++ rs') = sitesOf rs ++ sitesOf rs' :=
  List.flatMap_append

/-- The translations of declarations that come after others, as far as they go to a style. -/
def translationsToAfter (options : Options) (name : Text) (before sites : List Site) :
    List (Text × List Item) :=
  ((translationsAfter options before sites).filter fun w =>
    name ∈ w.1.styleNames options).map Prod.snd

theorem translationsToAfter_append (name : Text) (before sites sites' : List Site) :
    translationsToAfter options name before (sites ++ sites') =
      translationsToAfter options name before sites
        ++ translationsToAfter options name (before ++ sites) sites' := by
  rw [translationsToAfter, translationsAfter_append, List.filter_append, List.map_append,
    translationsToAfter, translationsToAfter]

theorem translationsTo_append (name : Text) (sites sites' : List Site) :
    translationsTo options name (sites ++ sites') =
      translationsTo options name sites ++ translationsToAfter options name sites sites' :=
  translationsToAfter_append name [] sites sites'

/-- **Translations depend on the definitions before them**, and on nothing else before them. -/
theorem translationsAfter_congr {before before' : List Site}
    (h : definitionsAfter options before = definitionsAfter options before') (sites : List Site) :
    translationsAfter options before sites = translationsAfter options before' sites := by
  induction sites generalizing before before' with
  | nil => rfl
  | cons site sites ih =>
    have hnext : definitionsAfter options (before ++ [site]) =
        definitionsAfter options (before' ++ [site]) := by
      rw [definitionsAfter, definitionsAfter] at h ⊢
      rw [List.filterMap_append, List.filterMap_append, ← List.append_assoc, ← List.append_assoc, h]
    rw [translationsAfter, translationsAfter, Declaration.items?_congr h, ih hnext]

/-- Plain declarations do not matter to what comes after them. -/
theorem translationsToAfter_append_of_isPlain (name : Text) (before : List Site)
    {plain : List Site} (h : IsPlain plain) (sites : List Site) :
    translationsToAfter options name (before ++ plain) sites =
      translationsToAfter options name before sites := by
  rw [translationsToAfter,
    translationsAfter_congr (definitionsAfter_append_of_isPlain before h), translationsToAfter]

/-- The translations of plain declarations, by their properties. -/
def plainTranslations (options : Options) (before : List Site) (ds : List Declaration) :
    List (Text × List Item) :=
  ds.filterMap fun d => (d.items? options before).map fun items => (d.property, items)

/-- A plain rule gives all its translations to its styles, and none to others. -/
theorem translationsToAfter_sitesOf_singleton (name : Text) (before : List Site) {r : Rule}
    (h : ∀ d ∈ r.declarations, d.customName? = none) :
    translationsToAfter options name before (sitesOf [r]) =
      if name ∈ r.styleNames options then plainTranslations options before r.declarations
      else [] := by
  have hplain : IsPlain (sitesOf [r]) := isPlain_sitesOf fun r' hr' => by
    rwa [List.mem_singleton.mp hr']
  rw [translationsToAfter, translationsAfter_of_isPlain before hplain, List.filter_filterMap,
    List.map_filterMap, sitesOf, List.flatMap_cons, List.flatMap_nil, List.append_nil,
    List.filterMap_map, plainTranslations]
  split
  · rename_i hname
    refine List.filterMap_congr fun d _ => ?_
    cases hitems : d.items? options before <;> simp [hitems, hname]
  · rename_i hname
    refine List.filterMap_eq_nil_iff.mpr fun d _ => ?_
    cases hitems : d.items? options before <;> simp [hitems, hname]

/-- **What rules with the same plain declarations write** is what one of them writes, if one is for
the style. -/
theorem write_translationsToAfter (m : StyleItems) (name : Text) (before : List Site)
    {ds : List Declaration} (hds : ∀ d ∈ ds, d.customName? = none) {rs : List Rule}
    (hrs : ∀ r ∈ rs, r.declarations = ds) :
    m.write (translationsToAfter options name before (sitesOf rs)) =
      if name ∈ rs.flatMap (Rule.styleNames options) then
        m.write (plainTranslations options before ds)
      else m := by
  induction rs generalizing m with
  | nil => rfl
  | cons r rs ih =>
    have hr : r.declarations = ds := hrs r (List.mem_cons_self ..)
    have hplain : IsPlain (sitesOf [r]) := isPlain_sitesOf fun r' hr' => by
      rwa [List.mem_singleton.mp hr', hr]
    have hcons : sitesOf (r :: rs) = sitesOf [r] ++ sitesOf rs := by
      rw [← sitesOf_append, List.singleton_append]
    -- the rules after the first are translated as if they were the first
    rw [hcons, translationsToAfter_append, translationsToAfter_append_of_isPlain name before hplain,
      OrderedMap.write_append, ih _ fun r hr => hrs r (List.mem_cons_of_mem _ hr),
      translationsToAfter_sitesOf_singleton name before (by rwa [hr]), hr, List.flatMap_cons]
    simp only [List.mem_append]
    by_cases hname : name ∈ r.styleNames options
    · simp [hname, OrderedMap.write_write_self]
    · simp [hname]

/-! ### The parts of a rule -/

/-- **The parts of a rule**: one for each selector, with all else that the rule has. -/
def Rule.split (r : Rule) : List Rule :=
  r.selectors.map fun selector => { r with selectors := [selector] }

theorem flatMap_styleNames_split (options : Options) (r : Rule) :
    r.split.flatMap (Rule.styleNames options) = r.styleNames options := by
  rw [Rule.split, List.flatMap_map, Rule.styleNames, List.filterMap_eq_flatMap_toList]
  refine List.flatMap_congr fun selector _ => ?_
  rw [Rule.styleNames, List.filterMap_cons, List.filterMap_nil]
  cases options.styleName? selector <;> rfl

theorem declarations_of_mem_split {r part : Rule} (h : part ∈ r.split) :
    part.declarations = r.declarations := by
  obtain ⟨selector, -, rfl⟩ := List.mem_map.mp h
  rfl

/-- **What goes to a style with plain rules in between**: what goes to it before, what they add, and
what goes to it after, as if they were not there. -/
theorem write_translationsTo (name : Text) (before after : List Rule) {ds : List Declaration}
    (hds : ∀ d ∈ ds, d.customName? = none) {rs : List Rule} (hrs : ∀ r ∈ rs, r.declarations = ds) :
    let earlier : StyleItems := OrderedMap.write ∅ (translationsTo options name (sitesOf before))
    OrderedMap.write ∅ (translationsTo options name (sitesOf (before ++ rs ++ after))) =
      (if name ∈ rs.flatMap (Rule.styleNames options) then
          earlier.write (plainTranslations options (sitesOf before) ds)
        else earlier).write
        (translationsToAfter options name (sitesOf before) (sitesOf after)) := by
  intro earlier
  have hplain : IsPlain (sitesOf rs) := isPlain_sitesOf fun r hr => by rwa [hrs r hr]
  rw [sitesOf_append, sitesOf_append, translationsTo_append, translationsTo_append,
    translationsToAfter_append_of_isPlain name _ hplain, OrderedMap.write_append,
    OrderedMap.write_append, write_translationsToAfter _ name _ hds hrs]

/-- **Rules with the same plain declarations and the same styles** come to the same styles. -/
theorem styles_rules_congr (hmode : options.mode = .styles) (before after : List Rule)
    {ds : List Declaration} (hds : ∀ d ∈ ds, d.customName? = none) {rs rs' : List Rule}
    (hrs : ∀ r ∈ rs, r.declarations = ds) (hrs' : ∀ r ∈ rs', r.declarations = ds)
    (hnames : rs.flatMap (Rule.styleNames options) = rs'.flatMap (Rule.styleNames options)) :
    ((Session.start options).rules options (before ++ rs ++ after)).styles =
      ((Session.start options).rules options (before ++ rs' ++ after)).styles := by
  have h := (Session.reflects_start hmode).rules hmode (before ++ rs ++ after)
  have h' := (Session.reflects_start hmode).rules hmode (before ++ rs' ++ after)
  rw [List.nil_append, List.nil_append] at h h'
  have hall : (before ++ rs ++ after).flatMap (Rule.styleNames options) =
      (before ++ rs' ++ after).flatMap (Rule.styleNames options) := by
    simp only [List.flatMap_append, hnames]
  refine OrderedMap.ext_get? ?_ fun name => ?_
  · rw [h.keys, h'.keys, hall]
  · rw [h.styles, h'.styles, write_translationsTo name before after hds hrs,
      write_translationsTo name before after hds hrs', hall, hnames]

/-! ### The theorem -/

/-- **A rule with several selectors is the sum of its selectors.** Where one without definitions is
replaced with its parts, in their order, the styles, their order and their items stay the same, and
so do the custom properties; whatever selectors of it are rejected or stand for one style. -/
theorem gather_split (options : Options) (before after : List Rule) {r : Rule}
    (h : ∀ d ∈ r.declarations, d.customName? = none) :
    (gather options (before ++ r.split ++ after)).styles =
        (gather options (before ++ r :: after)).styles ∧
      (gather options (before ++ r.split ++ after)).table =
        (gather options (before ++ r :: after)).table := by
  have hrule : before ++ r :: after = before ++ [r] ++ after := by simp
  have hparts : ∀ part ∈ r.split, part.declarations = r.declarations :=
    fun _ => declarations_of_mem_split
  have hself : ∀ part ∈ [r], part.declarations = r.declarations := fun part hpart => by
    rw [List.mem_singleton.mp hpart]
  have hnames : r.split.flatMap (Rule.styleNames options) =
      [r].flatMap (Rule.styleNames options) := by
    rw [flatMap_styleNames_split, List.flatMap_singleton]
  rw [hrule]
  constructor
  · cases hmode : options.mode with
    | styles =>
      exact congrArg StyleTable.toStyles
        (styles_rules_congr hmode before after h hparts hself hnames)
    | colors => rw [styles_gather_of_colors hmode, styles_gather_of_colors hmode]
  · have htable : ∀ {rs : List Rule}, (∀ part ∈ rs, part.declarations = r.declarations) →
        (gather options (before ++ rs ++ after)).table =
          ((Session.start options).rules options (before ++ after)).table := fun hrs =>
      table_rules_append_of_plain before after (fun part hpart => by rwa [hrs part hpart]) _
    rw [htable hparts, htable hself]

/-- Options with a beginning for every name. -/
def groupOptions : Options where
  stylePrefix? := some "Theme.".toList

/-- A rule with two selectors for one style, one of them twice, and one that is rejected. -/
def groupRule : Rule where
  selectors := [".a-b".toList, "p".toList, "a:hover".toList, ".a_b".toList, ".a-b".toList]
  declarations :=
    [⟨"color".toList, "red".toList, 2⟩, ⟨"width".toList, "auto".toList, 3⟩,
      ⟨"color".toList, "blue".toList, 4⟩]
  line := 1

theorem gather_split_group :
    (∀ d ∈ groupRule.declarations, d.customName? = none) ∧
      groupRule.split.map (Rule.styleNames groupOptions) =
        [["Theme.a_b".toList], ["Theme.P".toList], [], ["Theme.a_b".toList],
          ["Theme.a_b".toList]] ∧
      (gather groupOptions ([] ++ groupRule.split ++ [groupRule])).styles =
        (gather groupOptions ([] ++ groupRule :: [groupRule])).styles ∧
      (gather groupOptions ([] ++ groupRule.split ++ [groupRule])).table =
        (gather groupOptions ([] ++ groupRule :: [groupRule])).table :=
  ⟨by decide, by decide +kernel, gather_split groupOptions [] [groupRule] (by decide)⟩

end CssResources
