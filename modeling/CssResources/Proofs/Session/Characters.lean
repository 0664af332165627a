import CssResources.Proofs.Property.Characters
import CssResources.Proofs.Session.Predefined
import CssResources.Proofs.Session.Unresolved

/-!
# Where the characters of a document come from

A document may hold a character that XML does not allow, as nothing on the way from a stylesheet to
its document looks for one (`CssResources.illegalChars_document_control`). But **none is made**:
each of them is handed in, by the stylesheet, by the custom properties that are given, or by what
the names of styles begin with (`CssResources.illegalChars_document_subset`).

Each step of the way is said to stem from the one before (`CssResources.StemsFrom`):

| step | stems from | |
|---|---|---|
| the text without its comments | the stylesheet | `CssResources.stemsFrom_stripComments` |
| a value that is read | this text | `CssResources.Declaration.IsReadFrom.value_sublist` |
| a value resolved | values read or given | `CssResources.stemsFrom_resolve` |
| an item | a value resolved | `CssResources.stemsFrom_of_mem_translate` |
| a color | a value resolved | `CssResources.stemsFrom_of_colorOf?` |
| the document | items, colors, and names | `CssResources.stemsFrom_stylesDocument` |
-/

namespace CssResources

variable {options : Options} {origin : Text}

/-! ### Values that are read -/

/-- A comment leaves blanks only. -/
theorem stemsFrom_stripComments (source : Text) : StemsFrom source (stripComments source) := by
  have hnewline : isXmlChar '\n' = true := by decide
  have hspace : isXmlChar ' ' = true := by decide
  rw [stripComments]
  generalize false = inside
  fun_induction stripCommentsFrom inside source with
  | case1 t ih => exact ih.trans (StemsFrom.of_subset (by simp))
  | case2 t ih => exact (ih.trans (StemsFrom.of_subset (by simp))).cons hspace
  | case3 c t h ih =>
    exact List.forall_mem_cons.mpr
      ⟨Or.inr (List.mem_cons_self ..), ih.trans (StemsFrom.of_subset (List.subset_cons_self ..))⟩
  | case4 t h ih => exact (ih.trans (StemsFrom.of_subset (by simp))).cons hnewline
  | case5 c t h hc ih => exact ih.trans (StemsFrom.of_subset (by simp))
  | case6 => exact StemsFrom.nil
  | case7 => exact StemsFrom.nil.cons hspace

/-- **The values that are read stem from the stylesheet.** -/
theorem stemsFrom_value_of_mem_fragmentsOf {source : Text} {r : Rule} {d : Declaration}
    (hr : r ∈ (Stylesheet.fragmentsOf source).flatMap Fragment.rules) (hd : d ∈ r.declarations) :
    StemsFrom source d.value := by
  obtain ⟨fragment, hfragment, hr⟩ := List.mem_flatMap.mp hr
  have hmem : d ∈ (Stylesheet.fragmentsOf source).flatMap Fragment.declarations :=
    List.mem_flatMap.mpr ⟨fragment, hfragment, List.mem_flatMap.mpr ⟨r, hr, hd⟩⟩
  exact (stemsFrom_stripComments source).mono
    (isReadFrom_of_mem_fragments hmem).value_sublist.subset

/-! ### Values resolved -/

theorem stemsFrom_resolve {lookup : Text → Option Text} {raw : Text}
    (hlookup : ∀ name value, lookup name = some value → StemsFrom origin value)
    (hraw : StemsFrom origin raw) (limit : Nat) :
    StemsFrom origin (resolve lookup limit raw).value := by
  intro c hc
  rcases mem_value_expandText [] limit raw hc with h | ⟨name, value, hvalue, h⟩
  · exact hraw c h
  · exact hlookup name value hvalue c h

/-- **A color stems from what its property comes to.** -/
theorem stemsFrom_of_colorOf? {name value : Text} {c : ColorResource}
    (h : colorOf? name value = some c) : c.StemsFrom value := by
  rw [colorOf?] at h
  split at h
  · obtain rfl := Option.some.inj h
    exact ⟨stemsFrom_resourceName name,
      StemsFrom.of_subset (eraseFrom_sublist _ 0 value).subset⟩
  · obtain ⟨literal, hliteral, rfl⟩ := Option.map_eq_some_iff.mp h
    exact ⟨stemsFrom_resourceName name, stemsFrom_of_colorLiteral? hliteral⟩

/-- **The texts that a conversion of rules is given** stem from an origin: the values of the rules,
the values of the custom properties that are given, and what the names of styles begin with. -/
structure GivenFrom (origin : Text) (options : Options) (rs : List Rule) : Prop where
  /-- The values of the rules do. -/
  values : ∀ r ∈ rs, ∀ d ∈ r.declarations, StemsFrom origin d.value
  /-- The values that are given do. -/
  predefined : ∀ e ∈ options.predefined.entries, StemsFrom origin e.2
  /-- What names begin with does. -/
  stylePrefix : StemsFrom origin (options.stylePrefix?.getD [])

namespace GivenFrom

variable {rs : List Rule}

theorem stripImportant_value (h : GivenFrom origin options rs) {site : Site}
    (hsite : site ∈ sitesOf rs) : StemsFrom origin (stripImportant site.2.value) := by
  obtain ⟨r, hr, hsite⟩ := List.mem_flatMap.mp hsite
  obtain ⟨d, hd, rfl⟩ := List.mem_map.mp hsite
  exact (h.values r hr d hd).mono (stripImportant_sublist d.value).subset

/-! ### Styles -/

/-- The value of a declaration resolved stems from what is given. -/
theorem resolvedAfter (h : GivenFrom origin options rs) {before after : List Site} {site : Site}
    (hsites : sitesOf rs = before ++ site :: after) :
    StemsFrom origin (site.2.resolvedAfter options before) := by
  have hsite : site ∈ sitesOf rs := by simp [hsites]
  refine stemsFrom_resolve (fun name value hvalue => ?_) (h.stripImportant_value hsite) _
  rcases List.mem_append.mp (mem_of_lastValue? hvalue) with hmem | hmem
  · obtain ⟨e, he, heq⟩ := List.mem_map.mp hmem
    obtain ⟨-, rfl⟩ := Prod.mk.inj heq
    exact h.predefined e he
  · obtain ⟨earlier, hearlier, heq⟩ := List.mem_filterMap.mp hmem
    obtain ⟨property, -, hpair⟩ := Option.map_eq_some_iff.mp heq
    obtain ⟨-, rfl⟩ := Prod.mk.inj hpair
    exact h.stripImportant_value (by simp [hsites, hearlier])

/-- The name of a style stems from what it begins with. -/
theorem styleName? (h : GivenFrom origin options rs) {selector name : Text}
    (hname : options.styleName? selector = some name) : StemsFrom origin name := by
  obtain ⟨bare, hbare, rfl⟩ := Option.map_eq_some_iff.mp hname
  refine h.stylePrefix.append ?_
  cases hselector : Selector.ofText selector with
  | className n =>
    rw [hselector] at hbare
    obtain rfl := Option.some.inj hbare
    exact stemsFrom_resourceName n
  | element n =>
    rw [hselector] at hbare
    obtain rfl := Option.some.inj hbare
    exact stemsFrom_capitalizeFirst (stemsFrom_resourceName n)
  | root =>
    rw [hselector] at hbare
    exact absurd hbare (by simp [Selector.styleName?])
  | rejected cause =>
    rw [hselector] at hbare
    exact absurd hbare (by simp [Selector.styleName?])

/-- **The styles of a session stem from what it is given.** -/
theorem styles (h : GivenFrom origin options rs) (hmode : options.mode = .styles) {style : Style}
    (hstyle : style ∈ (gather options rs).styles) : style.StemsFrom origin := by
  obtain ⟨hname, hmeaning⟩ := (mem_gather_styles_iff hmode).mp hstyle
  constructor
  · obtain ⟨r, -, hr⟩ := List.mem_flatMap.mp hname
    obtain ⟨selector, -, hselector⟩ := List.mem_filterMap.mp hr
    exact h.styleName? hselector
  · intro i hi
    rw [hmeaning] at hi
    obtain ⟨before, site, after, items, hsites, -, hitems, hi⟩ :=
      exists_items?_of_mem_styleMeaning hi
    obtain ⟨-, -, rfl⟩ := exists_translate_of_items? hitems
    exact (stemsFrom_of_mem_translate hi).trans (h.resolvedAfter hsites)

/-! ### Colors -/

/-- The values of the definitions stem from what is given. -/
theorem definitionsIn (h : GivenFrom origin options rs) {e : Text × Definition}
    (he : e ∈ CssResources.definitionsIn options rs) : StemsFrom origin e.2.value := by
  rcases List.mem_append.mp he with he | he
  · obtain ⟨given, hgiven, rfl⟩ := List.mem_map.mp he
    exact h.predefined given hgiven
  · obtain ⟨d, hd, hdefines⟩ := List.mem_filterMap.mp he
    obtain ⟨r, hr, hd⟩ := List.mem_flatMap.mp hd
    obtain ⟨name, -, rfl⟩ := Option.map_eq_some_iff.mp hdefines
    exact (h.values r hr d hd).mono (stripImportant_sublist d.value).subset

/-- What a property comes to stems from what is given. -/
theorem resolvedAmong? (h : GivenFrom origin options rs) {name value : Text}
    (hvalue : CssResources.resolvedAmong? (CssResources.definitionsIn options rs) name =
      some value) : StemsFrom origin value := by
  obtain ⟨⟨before, d⟩, hlast, rfl⟩ := Option.map_eq_some_iff.mp hvalue
  obtain ⟨after, hdefs⟩ := exists_eq_append_of_lastDefinition? hlast
  have hmem {e : Text × Definition} (he : e ∈ before ++ (name, d) :: after) :
      StemsFrom origin e.2.value := h.definitionsIn (hdefs ▸ he)
  refine stemsFrom_resolve (fun other found hfound => ?_) (hmem (e := (name, d)) (by simp)) _
  obtain ⟨definition, hdefinition, rfl⟩ := Option.map_eq_some_iff.mp hfound
  exact hmem (List.mem_append_left _ (mem_of_lastValue? hdefinition))

/-- **The colors of a session stem from what it is given.** -/
theorem colors (h : GivenFrom origin options rs) (hmode : options.mode = .colors)
    {c : ColorResource} (hc : c ∈ (gather options rs).colors) : c.StemsFrom origin := by
  obtain ⟨value, name, hvalue, hcolor⟩ := exists_isColorMadeFrom hmode hc
  exact (stemsFrom_of_colorOf? hcolor).trans (h.resolvedAmong? hvalue)

/-- **A document stems from what the session is given.** -/
theorem document (h : GivenFrom origin options rs) :
    StemsFrom origin ((gather options rs).document options.mode) := by
  cases hmode : options.mode with
  | styles => exact stemsFrom_stylesDocument fun _ => h.styles hmode
  | colors => exact stemsFrom_colorsDocument fun _ => h.colors hmode

end GivenFrom

/-! ### The theorem -/

/-- **The texts that a conversion is given**: the stylesheet, what the names of styles begin with,
and the values of the custom properties that are given. -/
def givenTexts (options : Options) (source : Text) : Text :=
  source ++ options.stylePrefix?.getD [] ++ options.predefined.entries.flatMap Prod.snd

theorem givenFrom_givenTexts (options : Options) (source : Text) :
    GivenFrom (givenTexts options source) options
      ((Stylesheet.fragmentsOf source).flatMap Fragment.rules) where
  values _ hr _ hd := (stemsFrom_value_of_mem_fragmentsOf hr hd).trans
    (StemsFrom.of_subset fun _ hc => List.mem_append_left _ (List.mem_append_left _ hc))
  predefined e he :=
    StemsFrom.of_subset fun _ hc => List.mem_append_right _ (List.mem_flatMap.mpr ⟨e, he, hc⟩)
  stylePrefix :=
    StemsFrom.of_subset fun _ hc => List.mem_append_left _ (List.mem_append_right _ hc)

/-- **No character is made that XML does not allow.** Whatever the stylesheet, the options and the
mode are, each illegal character of the document is one of the texts that are given. So the document
of legal texts is legal. -/
theorem illegalChars_document_subset (options : Options) (source : Text) :
    illegalChars (convert options source).document ⊆ illegalChars (givenTexts options source) := by
  have hgather : gather options (Stylesheet.ofText source).rules =
      gather options ((Stylesheet.fragmentsOf source).flatMap Fragment.rules) :=
    gather_mergeLoose options _
  have hdocument : (convert options source).document =
      (gather options (Stylesheet.ofText source).rules).document options.mode := rfl
  rw [hdocument, hgather]
  exact (givenFrom_givenTexts options source).document.illegalChars_subset

/-- A stylesheet with a control character in a value. -/
def controlSource : Text := ".a \x7b font-family: \x01x; \x7d".toList

/-- Its rule. -/
def controlRule : Rule where
  selectors := [".a".toList]
  declarations := [⟨"font-family".toList, "\x01x".toList, 1⟩]
  line := 1

/-- The style of this rule. -/
def controlStyle : Style where
  name := "a".toList
  items := [{ attributeName := "fontFamily".toList, value := "\x01x".toList }]

theorem mem_gather_controlRule : controlStyle ∈ (gather {} [controlRule]).styles := by
  have hitems : Declaration.items? {} [] ⟨"font-family".toList, "\x01x".toList, 1⟩ =
      some controlStyle.items :=
    items?_of_none [] (by decide +kernel) (by decide) (by decide +kernel) (by decide +kernel)
  exact mem_gather_of_declaration rfl rfl (by decide) hitems

/-- A stylesheet whose only color keeps a reference, behind a control character. -/
def controlColorSource : Text := "--a: \x01 var(--b);".toList

theorem colors_controlColorSource :
    (convert { mode := .colors } controlColorSource).colors =
      [{ name := "a".toList, value := "\x01 var(b)".toList, commented := true }] := by
  have hdefs : definitionsIn { mode := .colors } (Stylesheet.ofText controlColorSource).rules =
      [("a".toList, ⟨"\x01 var(--b)".toList, 1⟩)] := by decide +kernel
  -- the reference is kept, as nothing is defined before it
  have hcut : firstReference? "\x01 var(--b)".toList =
      some ⟨"\x01 ".toList, ⟨"b".toList, none, "var(--b)".toList⟩, []⟩ := by decide +kernel
  have hresolve : (resolve (valueAfter? []) defaultLimit "\x01 var(--b)".toList).value =
      "\x01 var(--b)".toList := by
    rw [resolve, ← expandText, expandText_of_kept hcut (o := .undefined) rfl, expandText_of_none rfl]
    rfl
  have hcolor : colorAmong? [("a".toList, ⟨"\x01 var(--b)".toList, 1⟩)] "a".toList =
      some { name := "a".toList, value := "\x01 var(b)".toList, commented := true } := by
    have hlast : lastDefinition? "a".toList [("a".toList, ⟨"\x01 var(--b)".toList, 1⟩)] =
        some ([], ⟨"\x01 var(--b)".toList, 1⟩) := by decide
    rw [colorAmong?, resolvedAmong?, hlast, Option.map_some, hresolve]
    decide +kernel
  rw [colors_convert rfl, hdefs, List.map_singleton, eraseDups_singleton, List.filterMap_cons, hcolor]
  rfl

/-- **A control character goes through**, in both modes: nothing takes it out of the stylesheet, and
no entity is written for it. -/
theorem illegalChars_document_control :
    illegalChars (({} : Options).stylePrefix?.getD []) = [] ∧
      '\x01' ∈ illegalChars (convert {} controlSource).document ∧
      '\x01' ∈ illegalChars (convert { mode := .colors } controlColorSource).document := by
  have hillegal : (!isXmlChar '\x01') = true := by decide
  refine ⟨rfl, List.mem_filter.mpr ⟨?_, hillegal⟩, List.mem_filter.mpr ⟨?_, hillegal⟩⟩
  · have hrules : (Stylesheet.ofText controlSource).rules = [controlRule] := by decide +kernel
    have hdocument : (convert {} controlSource).document =
        "<resources>\n".toList
          ++ (gather {} (Stylesheet.ofText controlSource).rules).styles.flatMap Style.lines
          ++ "</resources>".toList := rfl
    have hlines : '\x01' ∈ controlStyle.lines := by decide +kernel
    rw [hdocument, hrules]
    exact List.mem_append_left _ (List.mem_append_right _
      (List.mem_flatMap.mpr ⟨controlStyle, mem_gather_controlRule, hlines⟩))
  · have hdocument : (convert { mode := .colors } controlColorSource).document =
        colorsDocument (convert { mode := .colors } controlColorSource).colors := rfl
    rw [hdocument, colors_controlColorSource]
    decide +kernel

end CssResources
