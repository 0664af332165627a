import CssResources.Proofs.Property.Translation
import CssResources.Proofs.Session.StyleWalk

/-!
# How the declarations of a style merge

The items of a style are merged by the **property** that they are made of, not by their
attribute. Two properties may make items for one attribute: a shorthand and one of its sides,
or the width and the height, both of which give a weight. So an attribute may come more than
once in a style (`CssResources.exists_repeated_attribute`), once for each property whose last
successful declaration makes an item for it.

What is true is said attribute by attribute (`CssResources.style_attribute_items`). An attribute
that no two properties make items for comes once at most, with the item of the last declaration
that makes one.
-/

namespace CssResources

variable {options : Options}

/-! ### The items of an attribute -/

/-- Of items with different names one at most has a given name. -/
theorem filter_name_eq {items : List Item} (h : (items.map Item.name).Nodup) (attr : Text) :
    items.filter (·.name = attr) = (items.find? (·.name = attr)).toList := by
  induction items with
  | nil => rfl
  | cons i items ih =>
    obtain ⟨hi, hitems⟩ := List.nodup_cons.mp h
    by_cases hname : i.name = attr
    · have hnone : items.filter (·.name = attr) = [] := by
        refine List.filter_eq_nil_iff.mpr fun j hj => ?_
        have hne : j.name ≠ attr := fun hj' =>
          hi (List.mem_map.mpr ⟨j, hj, hj'.trans hname.symm⟩)
        simpa using hne
      simp [hname, hnone]
    · simp [hname, ih hitems]

/-- The items of a successful declaration have different names. -/
theorem nodup_names_items? {before : List Site} {d : Declaration} {items : List Item}
    (h : d.items? options before = some items) : (items.map Item.name).Nodup := by
  rw [Declaration.items?] at h
  split at h
  · simp at h
  · split at h
    · simp at h
    · obtain rfl := Option.some.inj h
      exact nodup_names_translate _ _

/-! ### Who makes an item for an attribute -/

/-- **The item that a property gives an attribute**: that of the last translation of the
property, if it has one. -/
def lastItem? (ws : List (Text × List Item)) (attr property : Text) : Option Item :=
  ((lastValue? property ws).getD []).find? (·.name = attr)

/-- The translations that make an item for an attribute are all of one property. -/
def OfOneProperty (ws : List (Text × List Item)) (attr : Text) : Prop :=
  ∀ w ∈ ws, ∀ w' ∈ ws, attr ∈ w.2.map Item.name → attr ∈ w'.2.map Item.name → w.1 = w'.1

/-- **The item is that of the last translation that makes one for its attribute.** -/
def IsLastItem (ws : List (Text × List Item)) (i : Item) : Prop :=
  ∃ before w after, ws = before ++ w :: after ∧ i ∈ w.2 ∧
    ∀ w' ∈ after, i.name ∉ w'.2.map Item.name

variable {ws : List (Text × List Item)} {attr property : Text} {i : Item}

/-- A property that gives an attribute an item does so with its last translation. -/
theorem exists_of_lastItem? (h : lastItem? ws attr property = some i) :
    ∃ items, lastValue? property ws = some items ∧ i ∈ items ∧ i.name = attr := by
  rw [lastItem?] at h
  cases hlast : lastValue? property ws with
  | none => simp [hlast] at h
  | some items =>
    rw [hlast, Option.getD_some] at h
    exact ⟨items, rfl, List.mem_of_find?_eq_some h, by simpa using List.find?_some h⟩

/-- If one property makes all items for an attribute, the last translation of the property
that has one is the last of all that have one. -/
theorem isLastItem_of_ofOneProperty (hone : OfOneProperty ws attr)
    (h : lastItem? ws attr property = some i) : IsLastItem ws i := by
  obtain ⟨items, hlast, hi, hname⟩ := exists_of_lastItem? h
  obtain ⟨before, after, rfl, hafter⟩ := exists_of_lastValue? hlast
  refine ⟨before, (property, items), after, rfl, hi, fun w hw hmem => ?_⟩
  have hsame : w.1 = property :=
    hone w (by simp [hw]) (property, items) (by simp) (hname ▸ hmem)
      (List.mem_map.mpr ⟨i, hi, hname⟩)
  exact hafter w hw hsame

/-- Where a function gives something at one place at most, it gives one thing at most. -/
theorem length_filterMap_le_one {α β : Type} {f : α → Option β} {l : List α} (hl : l.Nodup)
    (h : ∀ a ∈ l, ∀ b ∈ l, (f a).isSome → (f b).isSome → a = b) :
    (l.filterMap f).length ≤ 1 := by
  induction l with
  | nil => simp
  | cons a l ih =>
    obtain ⟨ha, hl⟩ := List.nodup_cons.mp hl
    have ih := ih hl fun b hb c hc => h b (List.mem_cons_of_mem _ hb) c (List.mem_cons_of_mem _ hc)
    cases hfa : f a with
    | none => simpa [hfa] using ih
    | some v =>
      have hnone : ∀ b ∈ l, f b = none := fun b hb => by
        rw [← Option.not_isSome_iff_eq_none]
        intro hfb
        have hab := h a (List.mem_cons_self ..) b (List.mem_cons_of_mem _ hb) (by simp [hfa]) hfb
        exact ha (hab ▸ hb)
      simp [hfa, List.filterMap_eq_nil_iff.mpr hnone]

/-! ### The theorem -/

/-- The items of a style with an attribute, property by property. -/
theorem filter_styleMeaning (sites : List Site) (name attr : Text) :
    (styleMeaning options sites name).items.filter (·.name = attr) =
      ((translationsTo options name sites).map Prod.fst).eraseDups.filterMap
        (lastItem? (translationsTo options name sites) attr) := by
  rw [styleMeaning, List.filter_flatMap, List.filterMap_eq_flatMap_toList]
  refine List.flatMap_congr fun property _ => ?_
  rw [lastItem?]
  refine filter_name_eq ?_ attr
  cases hlast : lastValue? property (translationsTo options name sites) with
  | none => exact List.nodup_nil
  | some items =>
    obtain ⟨before, site, after, -, -, -, hitems⟩ :=
      exists_of_mem_translationsTo (mem_of_lastValue? hlast)
    exact nodup_names_items? hitems

/-- **The last write of a property wins.** The items of a style with an attribute are those of
the last successful declaration of each property, among the rules for the style, if it makes one
for the attribute, in the order of the first ones. So an attribute that one property makes all
items for comes once at most, and its item is that of the last successful declaration that makes
one. -/
theorem style_attribute_items (options : Options) (hmode : options.mode = .styles)
    (rs : List Rule) (style : Style) (hstyle : style ∈ (gather options rs).styles)
    (attr : Text) :
    let ws := translationsTo options style.name (sitesOf rs)
    style.items.filter (·.name = attr) =
        (ws.map Prod.fst).eraseDups.filterMap (lastItem? ws attr) ∧
      (OfOneProperty ws attr →
        (style.items.filter (·.name = attr)).length ≤ 1 ∧
          ∀ i ∈ style.items, i.name = attr → IsLastItem ws i) := by
  intro ws
  obtain ⟨-, hmeaning⟩ := (mem_gather_styles_iff hmode).mp hstyle
  have hfilter : style.items.filter (·.name = attr) =
      (ws.map Prod.fst).eraseDups.filterMap (lastItem? ws attr) := by
    rw [hmeaning]
    exact filter_styleMeaning _ _ _
  refine ⟨hfilter, fun hone => ⟨?_, fun i hi hname => ?_⟩⟩
  · rw [hfilter]
    refine length_filterMap_le_one (nodup_eraseDups _) fun p _ q _ hp hq => ?_
    obtain ⟨i, hi⟩ := Option.isSome_iff_exists.mp hp
    obtain ⟨j, hj⟩ := Option.isSome_iff_exists.mp hq
    obtain ⟨items, hlast, hmem, hname⟩ := exists_of_lastItem? hi
    obtain ⟨items', hlast', hmem', hname'⟩ := exists_of_lastItem? hj
    exact hone _ (mem_of_lastValue? hlast) _ (mem_of_lastValue? hlast')
      (List.mem_map.mpr ⟨i, hmem, hname⟩) (List.mem_map.mpr ⟨j, hmem', hname'⟩)
  · have hmem : i ∈ style.items.filter (·.name = attr) := by simp [hi, hname]
    rw [hfilter] at hmem
    obtain ⟨property, -, hlast⟩ := List.mem_filterMap.mp hmem
    exact isLastItem_of_ofOneProperty hone hlast

/-! ### Properties that overlap -/

/-- A spacing for all sides. -/
def insetAll : Declaration := ⟨"padding".toList, "2px 3px".toList, 2⟩

/-- A spacing for the left side. -/
def insetLeft : Declaration := ⟨"padding-left".toList, "1px".toList, 3⟩

/-- A rule that gives a spacing for all sides, and then one for the left side. -/
def insetRule : Rule where
  selectors := [".inset".toList]
  declarations := [insetAll, insetLeft]
  line := 1

/-- The style that this rule means. -/
def insetStyle : Style := styleMeaning {} (sitesOf [insetRule]) "inset".toList

theorem translationsTo_inset :
    translationsTo {} "inset".toList (sitesOf [insetRule]) =
      [("padding".toList,
         [{ attributeName := "paddingTop".toList, value := "2sp".toList },
          { attributeName := "paddingRight".toList, value := "3sp".toList },
          { attributeName := "paddingBottom".toList, value := "2sp".toList },
          { attributeName := "paddingLeft".toList, value := "3sp".toList }]),
       ("padding-left".toList,
         [{ attributeName := "paddingLeft".toList, value := "1sp".toList }])] := by
  have hsites : sitesOf [insetRule] =
      ([] ++ [(insetRule, insetAll)]) ++ [(insetRule, insetLeft)] := rfl
  rw [hsites, translationsTo_concat, translationsTo_concat,
    items?_of_none _ (d := insetAll) (by decide +kernel) (by decide +kernel) (by decide +kernel)
      (by decide +kernel),
    items?_of_none _ (d := insetLeft) (by decide +kernel) (by decide +kernel) (by decide +kernel)
      (by decide +kernel)]
  decide +kernel

theorem insetStyle_mem : insetStyle ∈ (gather {} [insetRule]).styles :=
  (mem_gather_styles_iff rfl).mpr ⟨by decide +kernel, rfl⟩

theorem items_insetStyle : insetStyle.items =
    [{ attributeName := "paddingTop".toList, value := "2sp".toList },
     { attributeName := "paddingRight".toList, value := "3sp".toList },
     { attributeName := "paddingBottom".toList, value := "2sp".toList },
     { attributeName := "paddingLeft".toList, value := "3sp".toList },
     { attributeName := "paddingLeft".toList, value := "1sp".toList }] := by
  rw [insetStyle, styleMeaning, translationsTo_inset]
  decide +kernel

/-- **An attribute may come twice in a style**, once for each of two properties. -/
theorem exists_repeated_attribute :
    ¬∀ style ∈ (gather {} [insetRule]).styles, (style.items.map Item.name).Nodup := by
  intro h
  have hnodup := h insetStyle insetStyle_mem
  rw [items_insetStyle] at hnodup
  exact absurd hnodup (by decide)

theorem style_attribute_items_inset :
    insetStyle ∈ (gather {} [insetRule]).styles ∧
      OfOneProperty (translationsTo {} "inset".toList (sitesOf [insetRule]))
        "android:paddingTop".toList ∧
      (insetStyle.items.filter (·.name = "android:paddingTop".toList)).length ≤ 1 ∧
      (insetStyle.items.filter (·.name = "android:paddingLeft".toList)).map Item.value =
        ["3sp".toList, "1sp".toList] := by
  have hone : OfOneProperty (translationsTo {} "inset".toList (sitesOf [insetRule]))
      "android:paddingTop".toList := by
    rw [translationsTo_inset, OfOneProperty]
    decide
  refine ⟨insetStyle_mem, hone, ?_, ?_⟩
  · exact ((style_attribute_items {} rfl [insetRule] insetStyle insetStyle_mem
      "android:paddingTop".toList).2 hone).1
  · rw [(style_attribute_items {} rfl [insetRule] insetStyle insetStyle_mem
      "android:paddingLeft".toList).1]
    show List.map Item.value (List.filterMap (lastItem? (translationsTo {} "inset".toList _) _)
      ((translationsTo {} "inset".toList _).map Prod.fst).eraseDups) = _
    rw [translationsTo_inset]
    decide +kernel

end CssResources
