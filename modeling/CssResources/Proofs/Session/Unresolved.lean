import CssResources.Conversion
import CssResources.Proofs.Property.Marking
import CssResources.Proofs.Session.ColorWalk
import CssResources.Proofs.Session.Outcome

/-!
# What keeps a reference is commented out, and announced

Whatever a stylesheet and the options are, each item and each color of a conversion is made from
a text: an item from a part of the value of a successful declaration, resolved
(`CssResources.Declaration.Makes`), a color from what its property comes to
(`CssResources.IsColorMadeFrom`). It is commented out **exactly if this text keeps a
reference**, so none leaks into the resources.

Each is announced too. For colors this happens at the end, property by property. A session for
styles announces a declaration when it takes it in, and its styles are written over later, so
the reports are kept by an invariant (`CssResources.Session.Announces`): every declaration that
made a commented item is reported, whether or not its items are still there.
-/

namespace CssResources

variable {options : Options}

/-! ### What items and colors are made from -/

/-- The value of a declaration that comes after others, resolved. -/
def Declaration.resolvedAfter (options : Options) (before : List Site) (d : Declaration) : Text :=
  (resolve (fun name => lastValue? name (definitionsAfter options before)) defaultLimit
    (stripImportant d.value)).value

/-- **A declaration makes an item from a text**, after others: it is successful, the text is a
part of its value, and the item is the one for this part. -/
def Declaration.Makes (options : Options) (before : List Site) (d : Declaration) (part : Text)
    (i : Item) : Prop :=
  ∃ p items, Property.ofName? d.property = some p ∧ d.items? options before = some items ∧
    (part, i) ∈ (p.parts (stripImportant (d.resolvedAfter options before))).zip items

/-- **An item for a style is made from a text** by a declaration of a rule for the style. -/
def IsItemMadeFrom (options : Options) (sites : List Site) (name part : Text) (i : Item) : Prop :=
  ∃ before site after, sites = before ++ site :: after ∧ name ∈ site.1.styleNames options ∧
    site.2.Makes options before part i

/-- **A color is made from a text**: from what its property comes to. -/
def IsColorMadeFrom (defs : List (Text × Definition)) (value : Text) (c : ColorResource) : Prop :=
  ∃ name, resolvedAmong? defs name = some value ∧ colorOf? name value = some c

/-! ### Marks -/

theorem exists_translate_of_items? {before : List Site} {d : Declaration} {items : List Item}
    (h : d.items? options before = some items) :
    (∃ p, Property.ofName? d.property = some p) ∧ items ≠ [] ∧
      items = (translate d.property (d.resolvedAfter options before)).items := by
  rw [Declaration.items?] at h
  split at h
  · simp at h
  · rename_i hp
    rw [Bool.or_eq_true, not_or, Option.isNone_iff_eq_none] at hp
    refine ⟨Option.ne_none_iff_exists'.mp hp.1, ?_⟩
    split at h
    · simp at h
    · rename_i hne
      obtain rfl := Option.some.inj h
      exact ⟨hne, rfl⟩

/-- The items of a successful declaration are marked right for the parts of its value. -/
theorem forall₂_isMarkedFor_items? {before : List Site} {d : Declaration} {items : List Item}
    {p : Property} (hp : Property.ofName? d.property = some p)
    (h : d.items? options before = some items) :
    List.Forall₂ (fun part i => IsMarkedFor part i.value i.commented)
      (p.parts (stripImportant (d.resolvedAfter options before))) items := by
  obtain ⟨-, hne, rfl⟩ := exists_translate_of_items? h
  exact forall₂_isMarkedFor_translate hp hne

/-- **An item is marked right for the text that it is made from.** -/
theorem Declaration.Makes.isMarkedFor {before : List Site} {d : Declaration} {part : Text}
    {i : Item} (h : d.Makes options before part i) : IsMarkedFor part i.value i.commented := by
  obtain ⟨p, items, hp, hitems, hpart⟩ := h
  exact (List.forall₂_iff_zip.mp (forall₂_isMarkedFor_items? hp hitems)).2 hpart

/-- Each item of a successful declaration is made from a text. -/
theorem Declaration.exists_makes {before : List Site} {d : Declaration} {items : List Item}
    {i : Item} (h : d.items? options before = some items) (hi : i ∈ items) :
    ∃ part, d.Makes options before part i := by
  obtain ⟨⟨p, hp⟩, -⟩ := exists_translate_of_items? h
  have hlength := (forall₂_isMarkedFor_items? hp h).length_eq
  rw [← List.map_snd_zip (Nat.le_of_eq hlength.symm)] at hi
  obtain ⟨⟨part, i⟩, hpart, rfl⟩ := List.mem_map.mp hi
  exact ⟨part, p, items, hp, h, hpart⟩

/-- **A color is marked right for the text that it is made from.** -/
theorem IsColorMadeFrom.isMarkedFor {defs : List (Text × Definition)} {value : Text}
    {c : ColorResource} (h : IsColorMadeFrom defs value c) :
    IsMarkedFor value c.value c.commented := by
  obtain ⟨name, -, hc⟩ := h
  rw [colorOf?] at hc
  split at hc
  · rename_i hvalue
    obtain rfl := Option.some.inj hc
    exact ⟨by simp [hvalue], by simp, fun _ => hasDashPair_eraseDashes value⟩
  · rename_i hvalue
    obtain ⟨literal, hliteral, rfl⟩ := Option.map_eq_some_iff.mp hc
    exact ⟨by simp [hvalue], fun _ => not_hasReference_of_colorLiteral? hliteral, by simp⟩

/-! ### Reports of declarations -/

/-- **A declaration with a commented item is reported.** -/
theorem Declaration.unresolvedReport_mem_convert {table : VariableTable} {p : Property}
    {d : Declaration} {items : List Item} (h : (d.convert table p).1 = some items)
    (hcommented : ∃ i ∈ items, i.commented = true) :
    d.unresolvedReport ∈ (d.convert table p).2 := by
  rcases d.convert_cases table p with ⟨-, hconvert⟩ | ⟨x, -, hconvert⟩
  · rw [hconvert] at h ⊢
    obtain rfl := Option.some.inj h
    rw [if_pos (List.any_eq_true.mpr hcommented)]
    exact List.mem_append_right _ (List.mem_singleton_self _)
  · rw [hconvert] at h
    cases h

/-- **A capture with a commented color is reported.** -/
theorem Capture.unresolvedVariable_mem_color {name : Text} {capture : Capture} {c : ColorResource}
    (h : (capture.color name).1 = some c) (hcommented : c.commented = true) :
    .unresolvedVariable capture.line ("--".toList ++ name) capture.raw ∈
      (capture.color name).2 := by
  rw [Capture.color] at h ⊢
  split
  · rename_i hcomplete
    rw [if_pos hcomplete] at h
    -- a color that is read is not commented out
    split at h
    · obtain rfl := Option.some.inj h
      simp at hcommented
    · simp at h
  · exact List.mem_singleton_self _

namespace Session

/-- The session has reported a declaration that comes after others, if it is for a style and
made a commented item. -/
def HasAnnounced (options : Options) (before : List Site) (site : Site) (s : Session) : Prop :=
  site.1.styleNames options ≠ [] → ∀ items, site.2.items? options before = some items →
    (∃ i ∈ items, i.commented = true) → site.2.unresolvedReport ∈ s.diagnostics

/-- **A session that reflects declarations has announced those that keep a reference.** -/
structure Announces (options : Options) (names : List Text) (sites : List Site) (s : Session) :
    Prop extends Reflects options names sites s where
  /-- Each declaration for a style that made a commented item is reported. -/
  announced : ∀ before site after, sites = before ++ site :: after →
    s.HasAnnounced options before site

variable {names : List Text} {sites : List Site} {s : Session} {r : Rule} {d : Declaration}

/-- **A declaration that is taken in is announced**, if it keeps a reference. -/
theorem Reflects.hasAnnounced (h : s.Reflects options names sites) :
    (s.declare .styles (r.targets options) d).HasAnnounced options sites (r, d) := by
  intro hnames items hitems hcommented
  obtain ⟨⟨p, hp⟩, -⟩ := exists_translate_of_items? hitems
  have hcustom : d.customName? = none := by
    by_contra hcustom
    obtain ⟨name, hname⟩ := Option.ne_none_iff_exists'.mp hcustom
    rw [ofName?_eq_none_of_customName? hname] at hp
    simp at hp
  have htargets : r.targets options ≠ [] := by
    obtain ⟨name, hname⟩ := List.exists_mem_of_ne_nil _ hnames
    exact List.ne_nil_of_mem (List.mem_eraseDups.mpr hname)
  rw [declare_of_ofName? _ hcustom hp htargets, diagnostics_apply]
  exact List.mem_append_right _
    (Declaration.unresolvedReport_mem_convert ((h.convert_fst hp).trans hitems) hcommented)

theorem HasAnnounced.mono {before : List Site} {site : Site} {s' : Session}
    (h : s.HasAnnounced options before site) (hsubset : s.diagnostics ⊆ s'.diagnostics) :
    s'.HasAnnounced options before site :=
  fun hnames items hitems hcommented => hsubset (h hnames items hitems hcommented)

/-- **A declaration takes what is announced to what is announced.** -/
theorem Announces.declare (h : s.Announces options names sites)
    (hr : ∀ n ∈ r.styleNames options, n ∈ names) :
    (s.declare .styles (r.targets options) d).Announces options names (sites ++ [(r, d)]) := by
  refine ⟨h.toReflects.declare hr, fun before site after hsites => ?_⟩
  rcases List.eq_nil_or_concat after with rfl | ⟨after, last, rfl⟩
  · obtain ⟨rfl, hsite⟩ := List.append_inj' hsites rfl
    obtain rfl := List.singleton_inj.mp hsite
    exact h.toReflects.hasAnnounced
  · have hinit : sites ++ [(r, d)] = (before ++ site :: after) ++ [last] := by
      simpa using hsites
    exact (h.announced before site after (List.append_inj' hinit rfl).1).mono
      (subset_diagnostics_declare _ _ _ _)

/-- A rule that begins takes no report back. -/
theorem Announces.openRule (h : s.Announces options names sites) (r : Rule) :
    (s.openRule options r).Announces options (names ++ r.styleNames options) sites :=
  ⟨h.toReflects.openRule r, fun before site after hsites =>
    (h.announced before site after hsites).mono (List.subset_append_left _ _)⟩

/-- **Rules take what is announced to what is announced.** -/
theorem Announces.rules (h : s.Announces options names sites) (hmode : options.mode = .styles)
    (rs : List Rule) :
    (s.rules options rs).Announces options (names ++ rs.flatMap (Rule.styleNames options))
      (sites ++ sitesOf rs) :=
  rules_induction hmode (fun r h => h.openRule r) (fun hr h => h.declare hr) h rs

/-- Before the first rule there is nothing to announce. -/
theorem announces_start (hmode : options.mode = .styles) :
    (Session.start options).Announces options [] [] :=
  ⟨reflects_start hmode, by simp⟩

end Session

/-! ### What a session ends with -/

/-- **Each item of a style is that of a successful declaration** for the style. -/
theorem exists_items?_of_mem_styleMeaning {sites : List Site} {name : Text} {i : Item}
    (h : i ∈ (styleMeaning options sites name).items) :
    ∃ before site after items, sites = before ++ site :: after ∧
      name ∈ site.1.styleNames options ∧ site.2.items? options before = some items ∧ i ∈ items := by
  obtain ⟨property, -, hi⟩ := List.mem_flatMap.mp h
  cases hlast : lastValue? property (translationsTo options name sites) with
  | none => simp [hlast] at hi
  | some items =>
    rw [hlast] at hi
    obtain ⟨before, site, after, hsites, hname, -, hitems⟩ :=
      exists_of_mem_translationsTo (mem_of_lastValue? hlast)
    exact ⟨before, site, after, items, hsites, hname, hitems, hi⟩

/-- Every item of a session is made from a text. -/
theorem exists_isItemMadeFrom (hmode : options.mode = .styles) {rs : List Rule} {style : Style}
    (hstyle : style ∈ (gather options rs).styles) {i : Item} (hi : i ∈ style.items) :
    ∃ part, IsItemMadeFrom options (sitesOf rs) style.name part i := by
  rw [((mem_gather_styles_iff hmode).mp hstyle).2] at hi
  obtain ⟨before, site, after, items, hsites, hname, hitems, hi⟩ :=
    exists_items?_of_mem_styleMeaning hi
  obtain ⟨part, hpart⟩ := Declaration.exists_makes hitems hi
  exact ⟨part, before, site, after, hsites, hname, hpart⟩

/-- **Every commented item of a session is announced.** -/
theorem exists_unresolvedVariable_of_item (hmode : options.mode = .styles) {rs : List Rule}
    {style : Style} (hstyle : style ∈ (gather options rs).styles) {i : Item}
    (hi : i ∈ style.items) (hcommented : i.commented = true) :
    ∃ line property value,
      .unresolvedVariable line property value ∈ (gather options rs).diagnostics := by
  rw [((mem_gather_styles_iff hmode).mp hstyle).2] at hi
  obtain ⟨before, site, after, items, hsites, hname, hitems, hi⟩ :=
    exists_items?_of_mem_styleMeaning hi
  have hannounced := ((Session.announces_start hmode).rules hmode rs).announced before site after
    hsites (List.ne_nil_of_mem hname) items hitems ⟨i, hi, hcommented⟩
  exact ⟨_, _, _, List.mem_append_left _ hannounced⟩

/-- A session for styles ends with no color. -/
theorem colors_gather_of_styles (hmode : options.mode = .styles) (rs : List Rule) :
    (gather options rs).colors = [] := by
  rw [gather, Session.finish, hmode]
  rfl

/-- Every color of a session is made from a text. -/
theorem exists_isColorMadeFrom (hmode : options.mode = .colors) {rs : List Rule}
    {c : ColorResource} (hc : c ∈ (gather options rs).colors) :
    ∃ value, IsColorMadeFrom (definitionsIn options rs) value c := by
  rw [gather, Session.finish, if_pos hmode,
    (Session.collects_rules hmode rs).filterMap_colorResults] at hc
  obtain ⟨name, -, hcolor⟩ := List.mem_filterMap.mp hc
  obtain ⟨value, hvalue, hcolor⟩ := Option.bind_eq_some_iff.mp hcolor
  exact ⟨value, name, hvalue, hcolor⟩

/-- **Every commented color of a session is announced.** -/
theorem exists_unresolvedVariable_of_color (hmode : options.mode = .colors) {rs : List Rule}
    {c : ColorResource} (hc : c ∈ (gather options rs).colors) (hcommented : c.commented = true) :
    ∃ line property value,
      .unresolvedVariable line property value ∈ (gather options rs).diagnostics := by
  rw [gather, Session.finish, if_pos hmode] at hc ⊢
  obtain ⟨result, hresult, hcolor⟩ := List.mem_filterMap.mp hc
  obtain ⟨⟨name, capture⟩, -, rfl⟩ := List.mem_map.mp hresult
  have hreport := Capture.unresolvedVariable_mem_color hcolor hcommented
  exact ⟨_, _, _, List.mem_append_right _ (List.mem_flatMap.mpr ⟨_, hresult, hreport⟩)⟩

/-! ### The theorem -/

/-- **What keeps a reference is commented out, and announced.** Each item and each color of a
conversion is made from a text, and for every such text it is commented out exactly if the text
keeps a reference; it keeps no reference if it is not commented out, and has no two dashes in a
row if it is. If there is one that is commented out, an unresolved property is reported. -/
theorem convert_isMarkedFor (options : Options) (source : Text) :
    let rs := (Stylesheet.ofText source).rules
    let conversion := convert options source
    (∀ style ∈ conversion.styles, ∀ i ∈ style.items,
        (∃ part, IsItemMadeFrom options (sitesOf rs) style.name part i) ∧
          ∀ part, IsItemMadeFrom options (sitesOf rs) style.name part i →
            IsMarkedFor part i.value i.commented) ∧
      (∀ c ∈ conversion.colors,
        (∃ value, IsColorMadeFrom (definitionsIn options rs) value c) ∧
          ∀ value, IsColorMadeFrom (definitionsIn options rs) value c →
            IsMarkedFor value c.value c.commented) ∧
      ((∃ style ∈ conversion.styles, ∃ i ∈ style.items, i.commented = true) ∨
          (∃ c ∈ conversion.colors, c.commented = true) →
        ∃ line property value,
          .unresolvedVariable line property value ∈ conversion.diagnostics) := by
  intro rs conversion
  refine ⟨fun style hstyle i hi => ⟨?_, ?_⟩, fun c hc => ⟨?_, ?_⟩, ?_⟩
  · cases hmode : options.mode with
    | styles => exact exists_isItemMadeFrom hmode hstyle hi
    | colors =>
      have hnil : conversion.styles = [] := styles_gather_of_colors hmode rs
      simp [hnil] at hstyle
  · rintro part ⟨before, site, after, -, -, hmakes⟩
    exact hmakes.isMarkedFor
  · cases hmode : options.mode with
    | styles =>
      have hnil : conversion.colors = [] := colors_gather_of_styles hmode rs
      simp [hnil] at hc
    | colors => exact exists_isColorMadeFrom hmode hc
  · exact fun value hvalue => hvalue.isMarkedFor
  · intro hcommented
    have hannounced : ∃ line property value,
        .unresolvedVariable line property value ∈ (gather options rs).diagnostics := by
      cases hmode : options.mode with
      | styles =>
        have hnil : conversion.colors = [] := colors_gather_of_styles hmode rs
        rcases hcommented with ⟨style, hstyle, i, hi, hcommented⟩ | ⟨c, hc, -⟩
        · exact exists_unresolvedVariable_of_item hmode hstyle hi hcommented
        · simp [hnil] at hc
      | colors =>
        have hnil : conversion.styles = [] := styles_gather_of_colors hmode rs
        rcases hcommented with ⟨style, hstyle, -⟩ | ⟨c, hc, hcommented⟩
        · simp [hnil] at hstyle
        · exact exists_unresolvedVariable_of_color hmode hc hcommented
    obtain ⟨line, property, value, hmem⟩ := hannounced
    exact ⟨line, property, value, List.mem_append_right _ hmem⟩

end CssResources
