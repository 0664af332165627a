import CssResources.Proofs.Selector
import CssResources.Proofs.Session.StyleWalk

/-!
# What a style depends on

Items go to a style by its name, so the selectors that one style is for are those that are alike
(`CssResources.Options.styleName?_eq_some_iff`), and they need not be the same
(`CssResources.gather_styles_blueRule`). Rules for other selectors can change a style in one way
only: they may define a custom property that it refers to. Where no custom property is declared,
every value is resolved against the predefined ones (`CssResources.translationsAfter_of_isPlain`),
and a style is made from the rules for it (`CssResources.styleMeaning_congr`). Other rules can be
added, changed and taken away (`CssResources.style_apart`).
-/

namespace CssResources

variable {options : Options}

/-! ### The selectors of a style -/

/-- **A style is for the selectors that are alike.** -/
theorem Options.styleName?_eq_some_iff {s name : Text} (hs : options.styleName? s = some name)
    (t : Text) :
    options.styleName? t = some name ↔ (Selector.ofText s).Alike (Selector.ofText t) := by
  obtain ⟨m, hm, rfl⟩ := Option.map_eq_some_iff.mp hs
  rw [← Selector.styleName?_eq_some_iff (Selector.isNamed_ofText s) (Selector.isNamed_ofText t) hm,
    Options.styleName?]
  simp

/-- A rule is for a style if one of its selectors is like that of the style. -/
theorem Rule.mem_styleNames_iff {s name : Text} (hs : options.styleName? s = some name)
    (r : Rule) :
    name ∈ r.styleNames options ↔
      ∃ t ∈ r.selectors, (Selector.ofText s).Alike (Selector.ofText t) := by
  rw [Rule.styleNames, List.mem_filterMap]
  simp only [Options.styleName?_eq_some_iff hs]

/-! ### Rules without definitions -/

/-- **The declarations are of no custom property.** -/
def IsPlain (sites : List Site) : Prop := ∀ site ∈ sites, site.2.customName? = none

/-- Plain declarations define nothing. -/
theorem definitionsAfter_append_of_isPlain (before : List Site) {sites : List Site}
    (h : IsPlain sites) :
    definitionsAfter options (before ++ sites) = definitionsAfter options before := by
  have hnone : sites.filterMap (fun site => site.2.definition?) = [] :=
    List.filterMap_eq_nil_iff.mpr fun site hsite => by
      rw [Declaration.definition?, h site hsite, Option.map_none]
  rw [definitionsAfter, List.filterMap_append, hnone, List.append_nil, definitionsAfter]

/-- **A value is resolved against the definitions so far**, whatever else comes before it. -/
theorem Declaration.items?_congr {before before' : List Site}
    (h : definitionsAfter options before = definitionsAfter options before') (d : Declaration) :
    d.items? options before = d.items? options before' := by
  rw [Declaration.items?, Declaration.items?, h]

/-- **Plain declarations are translated one by one**, as if each were the first of them. -/
theorem translationsAfter_of_isPlain (before : List Site) {sites : List Site} (h : IsPlain sites) :
    translationsAfter options before sites = sites.filterMap fun site =>
      (site.2.items? options before).map fun items => (site.1, site.2.property, items) := by
  induction sites generalizing before with
  | nil => rfl
  | cons site sites ih =>
    have hsite : IsPlain [site] := fun site' hsite' =>
      h site' (List.mem_singleton.mp hsite' ▸ List.mem_cons_self ..)
    rw [translationsAfter, ih _ fun site hsite => h site (List.mem_cons_of_mem _ hsite),
      List.filterMap_cons]
    simp only [Declaration.items?_congr (definitionsAfter_append_of_isPlain before hsite)]
    cases site.2.items? options before <;> rfl

/-- The declarations of rules for a style are those of the rules for it. -/
theorem filter_sitesOf (name : Text) (rs : List Rule) :
    (sitesOf rs).filter (fun site => name ∈ site.1.styleNames options) =
      sitesOf (rs.filter fun r => name ∈ r.styleNames options) := by
  induction rs with
  | nil => rfl
  | cons r rs ih =>
    have hcons (rs : List Rule) : sitesOf (r :: rs) = r.declarations.map (r, ·) ++ sitesOf rs := rfl
    rw [hcons, List.filter_append, ih, List.filter_map, List.filter_cons]
    by_cases hr : name ∈ r.styleNames options <;> simp [Function.comp_def, hr, hcons]

/-- **What goes to a style comes from the rules for it.** -/
theorem translationsTo_of_isPlain {rs : List Rule} (h : IsPlain (sitesOf rs)) (name : Text) :
    translationsTo options name (sitesOf rs) =
      (sitesOf (rs.filter fun r => name ∈ r.styleNames options)).filterMap fun site =>
        (site.2.items? options []).map fun items => (site.2.property, items) := by
  rw [translationsTo, translationsOf, translationsAfter_of_isPlain [] h,
    List.filter_filterMap, List.map_filterMap, ← filter_sitesOf, List.filterMap_filter]
  refine List.filterMap_congr fun site _ => ?_
  cases site.2.items? options [] with
  | none => simp
  | some items => by_cases hname : name ∈ site.1.styleNames options <;> simp [hname]

/-- **A style depends on the rules for it only.** -/
theorem styleMeaning_congr {rs rs' : List Rule} {name : Text} (h : IsPlain (sitesOf rs))
    (h' : IsPlain (sitesOf rs'))
    (hrules : (rs.filter fun r => name ∈ r.styleNames options) =
      rs'.filter fun r => name ∈ r.styleNames options) :
    styleMeaning options (sitesOf rs) name = styleMeaning options (sitesOf rs') name := by
  rw [styleMeaning, styleMeaning, translationsTo_of_isPlain h, translationsTo_of_isPlain h', hrules]

theorem isPlain_sitesOf {rs : List Rule}
    (h : ∀ r ∈ rs, ∀ d ∈ r.declarations, d.customName? = none) : IsPlain (sitesOf rs) := by
  intro site hsite
  obtain ⟨r, hr, hsite⟩ := List.mem_flatMap.mp hsite
  obtain ⟨d, hd, rfl⟩ := List.mem_map.mp hsite
  exact h r hr d hd

/-- There is a style where there is a rule for it. -/
theorem mem_flatMap_styleNames_iff {rs : List Rule} {name : Text} :
    name ∈ rs.flatMap (Rule.styleNames options) ↔
      (rs.filter fun r => name ∈ r.styleNames options) ≠ [] := by
  simp [List.filter_eq_nil_iff]

/-- **Rules with the same rules for a style have the same style.** -/
theorem mem_gather_styles_congr (hmode : options.mode = .styles) {rs rs' : List Rule}
    {style : Style} (h : IsPlain (sitesOf rs)) (h' : IsPlain (sitesOf rs'))
    (hrules : (rs.filter fun r => style.name ∈ r.styleNames options) =
      rs'.filter fun r => style.name ∈ r.styleNames options) :
    style ∈ (gather options rs).styles ↔ style ∈ (gather options rs').styles := by
  rw [mem_gather_styles_iff hmode, mem_gather_styles_iff hmode, mem_flatMap_styleNames_iff,
    mem_flatMap_styleNames_iff, hrules, styleMeaning_congr h h' hrules]

/-! ### The theorem -/

/-- **The selectors of a style, and what it depends on.** A style is for the selectors that are
alike. Where no custom property is declared, rules of which no selector is like that of the style
can be added, changed and taken away: the style of this name stays the same, or stays away. -/
theorem style_apart (options : Options) (hmode : options.mode = .styles) {s name : Text}
    (hs : options.styleName? s = some name) :
    (∀ t, options.styleName? t = some name ↔ (Selector.ofText s).Alike (Selector.ofText t)) ∧
      ∀ before rs rs' after : List Rule,
        (∀ r ∈ before ++ rs ++ rs' ++ after, ∀ d ∈ r.declarations, d.customName? = none) →
        (∀ r ∈ rs ++ rs', ∀ t ∈ r.selectors, ¬(Selector.ofText s).Alike (Selector.ofText t)) →
        ∀ style : Style, style.name = name →
          (style ∈ (gather options (before ++ rs ++ after)).styles ↔
            style ∈ (gather options (before ++ rs' ++ after)).styles) := by
  refine ⟨Options.styleName?_eq_some_iff hs, ?_⟩
  rintro before rs rs' after hplain hother style rfl
  have hnone : ∀ {rules : List Rule}, (∀ r ∈ rules, r ∈ rs ++ rs') →
      rules.filter (fun r => style.name ∈ r.styleNames options) = [] := by
    intro rules hrules
    refine List.filter_eq_nil_iff.mpr fun r hr hmem => ?_
    obtain ⟨t, ht, halike⟩ := (Rule.mem_styleNames_iff hs r).mp (of_decide_eq_true hmem)
    exact hother r (hrules r hr) t ht halike
  refine mem_gather_styles_congr hmode (isPlain_sitesOf fun r hr => hplain r ?_)
    (isPlain_sitesOf fun r hr => hplain r ?_) ?_
  · simp only [List.mem_append] at hr ⊢
    tauto
  · simp only [List.mem_append] at hr ⊢
    tauto
  · rw [List.filter_append, List.filter_append, List.filter_append, List.filter_append,
      hnone fun r hr => List.mem_append_left _ hr, hnone fun r hr => List.mem_append_right _ hr]

/-- A rule for a class with a dash in its name. -/
def redRule : Rule where
  selectors := [".a-b".toList]
  declarations := [⟨"color".toList, "red".toList, 1⟩]
  line := 1

/-- A rule for a class with an underscore in its name, and for an element. -/
def blueRule : Rule where
  selectors := [".a_b".toList, "p".toList]
  declarations := [⟨"color".toList, "blue".toList, 2⟩]
  line := 2

/-- A rule for cards. -/
def cardRule : Rule where
  selectors := [".card".toList]
  declarations := [⟨"color".toList, "red".toList, 1⟩]
  line := 1

/-- A rule for cards and for an element. -/
def wideRule : Rule where
  selectors := [".card".toList, "p".toList]
  declarations := [⟨"width".toList, "4px".toList, 9⟩]
  line := 9

/-- The style of cards, with an item from each of their two rules. -/
def cardStyle : Style where
  name := "card".toList
  items := [{ attributeName := "textColor".toList, value := "RED".toList },
    { attributeName := "layout_width".toList, value := "4dp".toList }]

theorem items?_red : Declaration.items? {} [] ⟨"color".toList, "red".toList, 1⟩ =
    some [{ attributeName := "textColor".toList, value := "RED".toList }] :=
  items?_of_none [] (by decide +kernel) (by decide) (by decide +kernel) (by decide +kernel)

theorem mem_gather_cardRule : cardStyle ∈ (gather {} [cardRule, redRule, wideRule]).styles := by
  have hwidth : Declaration.items? {} [] ⟨"width".toList, "4px".toList, 9⟩ =
      some [{ attributeName := "layout_width".toList, value := "4dp".toList }] :=
    (items?_of_none [] (by decide +kernel) (by decide) (by decide +kernel)
      (by decide +kernel)).trans (by decide +kernel)
  have hsites : sitesOf ([cardRule, redRule, wideRule].filter fun r =>
      cardStyle.name ∈ r.styleNames {}) =
        [(cardRule, ⟨"color".toList, "red".toList, 1⟩),
         (wideRule, ⟨"width".toList, "4px".toList, 9⟩)] := by decide
  refine (mem_gather_styles_iff rfl).mpr ⟨by decide, ?_⟩
  rw [styleMeaning, translationsTo_of_isPlain (isPlain_sitesOf (by decide)), hsites,
    List.filterMap_cons, items?_red, List.filterMap_cons, hwidth]
  decide

/-- Rules that come between the two rules for cards leave both items of their style. -/
theorem style_apart_blueRule :
    let rs := [cardRule] ++ [redRule] ++ [wideRule]
    let rs' := [cardRule] ++ [blueRule, redRule] ++ [wideRule]
    Options.styleName? {} ".card".toList = some "card".toList ∧
      (∀ r ∈ [redRule] ++ [blueRule, redRule], ∀ t ∈ r.selectors,
        ¬(Selector.ofText ".card".toList).Alike (Selector.ofText t)) ∧
      (∀ style : Style, style.name = "card".toList →
        (style ∈ (gather {} rs).styles ↔ style ∈ (gather {} rs').styles)) ∧
      cardStyle ∈ (gather {} rs).styles ∧ cardStyle ∈ (gather {} rs').styles := by
  intro rs rs'
  have hs : Options.styleName? {} ".card".toList = some "card".toList := by decide
  have hplain : ∀ r ∈ [cardRule] ++ [redRule] ++ [blueRule, redRule] ++ [wideRule],
      ∀ d ∈ r.declarations, d.customName? = none := by decide
  have hother : ∀ r ∈ [redRule] ++ [blueRule, redRule], ∀ t ∈ r.selectors,
      ¬(Selector.ofText ".card".toList).Alike (Selector.ofText t) := by
    have hnames : ∀ r ∈ [redRule] ++ [blueRule, redRule], ∀ t ∈ r.selectors,
        Options.styleName? {} t ≠ some "card".toList := by decide
    exact fun r hr t ht halike =>
      hnames r hr t ht ((Options.styleName?_eq_some_iff hs t).mpr halike)
  have hapart := (style_apart {} rfl hs).2 [cardRule] [redRule] [blueRule, redRule] [wideRule]
    hplain hother
  exact ⟨hs, hother, hapart, mem_gather_cardRule, (hapart cardStyle rfl).mp mem_gather_cardRule⟩

/-- A style with the color of some text. -/
def colorStyle (value : String) : Style where
  name := "a_b".toList
  items := [{ attributeName := "textColor".toList, value := value.toList }]

/-- **A dash and an underscore are the same in the name of a style**: a rule for one class changes
the style of another. -/
theorem gather_styles_blueRule :
    (trim ".a-b".toList ≠ trim ".a_b".toList ∧
        Options.styleName? {} ".a-b".toList = some "a_b".toList ∧
        Options.styleName? {} ".a_b".toList = some "a_b".toList ∧
        ∀ r ∈ [redRule, blueRule], ∀ d ∈ r.declarations, d.customName? = none) ∧
      colorStyle "RED" ∈ (gather {} [redRule]).styles ∧
      colorStyle "BLUE" ∈ (gather {} [redRule, blueRule]).styles ∧
      colorStyle "RED" ∉ (gather {} [redRule, blueRule]).styles := by
  have hplain : ∀ r ∈ [redRule, blueRule], ∀ d ∈ r.declarations, d.customName? = none := by decide
  have hblue : Declaration.items? {} [] ⟨"color".toList, "blue".toList, 2⟩ =
      some (colorStyle "BLUE").items :=
    items?_of_none [] (by decide +kernel) (by decide) (by decide +kernel) (by decide +kernel)
  have hone : styleMeaning {} (sitesOf [redRule]) "a_b".toList = colorStyle "RED" := by
    have hsites : sitesOf ([redRule].filter fun r => "a_b".toList ∈ r.styleNames {}) =
        [(redRule, ⟨"color".toList, "red".toList, 1⟩)] := by decide
    rw [styleMeaning, translationsTo_of_isPlain (isPlain_sitesOf (by decide)), hsites,
      List.filterMap_cons, items?_red]
    decide
  have htwo : styleMeaning {} (sitesOf [redRule, blueRule]) "a_b".toList = colorStyle "BLUE" := by
    have hsites : sitesOf ([redRule, blueRule].filter fun r => "a_b".toList ∈ r.styleNames {}) =
        [(redRule, ⟨"color".toList, "red".toList, 1⟩),
         (blueRule, ⟨"color".toList, "blue".toList, 2⟩)] := by decide
    rw [styleMeaning, translationsTo_of_isPlain (isPlain_sitesOf hplain), hsites,
      List.filterMap_cons, items?_red, List.filterMap_cons, hblue]
    decide
  refine ⟨⟨by decide, by decide, by decide, hplain⟩, ?_, ?_, fun hmem => ?_⟩
  · exact (mem_gather_styles_iff rfl).mpr ⟨by decide, hone.symm⟩
  · exact (mem_gather_styles_iff rfl).mpr ⟨by decide, htwo.symm⟩
  · have hstyle : colorStyle "RED" = colorStyle "BLUE" :=
      ((mem_gather_styles_iff rfl).mp hmem).2.trans htwo
    exact absurd hstyle (by decide)

end CssResources
