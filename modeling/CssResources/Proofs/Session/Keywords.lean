import CssResources.Proofs.Session.Outcome
import CssResources.Proofs.Value.Markers

/-!
# Words that no attribute can take

A value with `auto`, `inherit` or a calculation among its tokens is not translated, wherever the
token comes from: the declaration itself, a custom property, a fallback, or a property given with
the options. The declaration is refused, and an unsupported value is reported
(`CssResources.Session.refused_of_hasUnsupportedToken`).

This is so for the tokens of the text that is translated **if the markers of the resolved value
stand apart**. The tokens are looked at before the markers are erased. A marker that comes with a
fallback is still there, and if it touches a word, the word is not seen: `auto!important` becomes an
item of zero length (`CssResources.exists_item_of_hasUnsupportedToken`).
-/

namespace CssResources

variable {options : Options}

namespace Session

/-- What is taken in on the way is reported in the end. -/
theorem mem_diagnostics_gather (hmode : options.mode = .styles) {earlier later : List Rule}
    {r : Rule} {before after : List Declaration} (hr : r.declarations = before ++ after)
    {x : Diagnostic}
    (hx : x ∈ (((start options).rules options earlier).within options r before).diagnostics) :
    x ∈ (gather options (earlier ++ r :: later)).diagnostics := by
  have hrule : x ∈ (((start options).rules options earlier).rule options r).diagnostics := by
    rw [rule_eq_within hmode, hr, within_append]
    exact subset_diagnostics_foldl_declare _ _ _ _ hx
  have hrules : x ∈ ((start options).rules options (earlier ++ r :: later)).diagnostics := by
    rw [rules, List.foldl_append, List.foldl_cons]
    exact subset_diagnostics_rules options later _ hrule
  exact List.mem_append_left _ hrules

/-- **No value with a token that no attribute can take becomes an item.** Of any rules, take a
declaration with a counterpart in a rule with a style, and the session before it. If the markers of
its resolved value stand apart, and the value that is translated has such a token, the session only
reports: after what the resolution reports, an unsupported value. The report stays to the end. -/
theorem refused_of_hasUnsupportedToken (hmode : options.mode = .styles)
    (earlier later : List Rule) {r : Rule} {before after : List Declaration} {d : Declaration}
    (hr : r.declarations = before ++ d :: after)
    (hd : (Property.ofName? d.property).isSome = true) (haccepted : r.IsAccepted options) :
    let s₀ := ((start options).rules options earlier).within options r before
    let s₁ := ((start options).rules options earlier).within options r (before ++ [d])
    let resolved := d.resolution s₀.table
    let report := Diagnostic.unsupportedValue d.line d.property resolved.value
    MarkersStandApart resolved.value →
      hasUnsupportedToken (stripImportant resolved.value) = true →
        s₁ = s₀.report (resolved.diagnostics ++ [report]) ∧
          report ∈ (gather options (earlier ++ r :: later)).diagnostics := by
  intro s₀ s₁ resolved report hmarkers htoken
  obtain ⟨p, hp⟩ := Option.isSome_iff_exists.mp hd
  have hcustom : d.customName? = none := by
    by_contra hcustom
    obtain ⟨name, hname⟩ := Option.ne_none_iff_exists'.mp hcustom
    rw [ofName?_eq_none_of_customName? hname] at hd
    cases hd
  have hconvert : d.convert s₀.table p = (none, resolved.diagnostics ++ [report]) :=
    Declaration.convert_of_hasUnsupportedToken p
      (hasUnsupportedToken_of_stripImportant hmarkers htoken)
  have hstep : s₁ = s₀.report (resolved.diagnostics ++ [report]) := by
    have hwithin : s₁ = s₀.declare .styles (r.targets options) d := within_concat _ r before d
    rw [hwithin, declare_of_ofName? _ hcustom hp (Rule.isAccepted_iff.mp haccepted),
      apply_of_none _ hconvert]
  have hdeclarations : r.declarations = (before ++ [d]) ++ after := by
    rw [hr, List.append_assoc, List.singleton_append]
  have hmem : report ∈ s₁.diagnostics := by
    rw [hstep]
    exact List.mem_append_right _ (List.mem_append_right _ (List.mem_singleton_self _))
  exact ⟨hstep, mem_diagnostics_gather hmode hdeclarations hmem⟩

end Session

/-- A property given with a marker, which is not erased before it is used. -/
def stretchOptions : Options where
  predefined := TextMap.insert ∅ "--size".toList "auto !important".toList

/-- A rule that uses it. -/
def stretchRule : Rule where
  selectors := [".stretch".toList]
  declarations := [⟨"width".toList, "var(--size)".toList, 2⟩]
  line := 1

theorem refused_of_hasUnsupportedToken_stretch :
    let width : Declaration := ⟨"width".toList, "var(--size)".toList, 2⟩
    let s := Session.start stretchOptions
    let s₀ := s.within stretchOptions stretchRule []
    let resolved := width.resolution s₀.table
    let report := Diagnostic.unsupportedValue 2 "width".toList resolved.value
    (stretchOptions.mode = .styles ∧ stretchRule.declarations = [] ++ width :: [] ∧
        (Property.ofName? width.property).isSome = true ∧ stretchRule.IsAccepted stretchOptions) ∧
      (MarkersStandApart resolved.value ∧
        hasUnsupportedToken (stripImportant resolved.value) = true) ∧
      s.within stretchOptions stretchRule [width] = s₀.report (resolved.diagnostics ++ [report]) ∧
      report ∈ (gather stretchOptions [stretchRule]).diagnostics := by
  intro width s s₀ resolved report
  let reference : Reference := ⟨"size".toList, none, "var(--size)".toList⟩
  have hreference : firstReference? "var(--size)".toList = some ⟨[], reference, []⟩ := by
    decide +kernel
  have hfate : reference.fate s₀.table.value? [] 256 = .replaced "auto !important".toList := by
    decide +kernel
  have hresolved : resolved = ⟨"auto !important".toList, [], [], []⟩ :=
    resolve_of_reference hreference hfate (by decide +kernel)
  have hvalue : resolved.value = "auto !important".toList := by rw [hresolved]
  have hmarkers : MarkersStandApart resolved.value := by
    rw [hvalue]
    decide +kernel
  have htoken : hasUnsupportedToken (stripImportant resolved.value) = true := by
    rw [hvalue]
    decide +kernel
  have haccepted : stretchRule.IsAccepted stretchOptions :=
    ⟨".stretch".toList, List.mem_cons_self .., by decide⟩
  have hdeclarations : stretchRule.declarations = [] ++ width :: [] := rfl
  exact ⟨⟨rfl, hdeclarations, by decide, haccepted⟩, ⟨hmarkers, htoken⟩,
    Session.refused_of_hasUnsupportedToken rfl [] [] hdeclarations (by decide) haccepted hmarkers
      htoken⟩

/-! ### Markers that touch a word -/

/-- A rule whose declaration is refused with a blank in front of its marker, and not without. -/
def overlookedRule : Rule where
  selectors := [".a".toList]
  declarations := [⟨"width".toList, "var(--w, auto!important)".toList, 1⟩]
  line := 1

/-- **A word that a marker touches is overlooked**: the value is resolved to `auto!important`, what
is translated is `auto`, and an item is made of it without a report. -/
theorem exists_item_of_hasUnsupportedToken :
    let width : Declaration := ⟨"width".toList, "var(--w, auto!important)".toList, 1⟩
    let value := (width.resolution (Session.start {}).table).value
    value = "auto!important".toList ∧ hasUnsupportedToken (stripImportant value) = true ∧
      (gather {} [overlookedRule]).styles =
        [{ name := "a".toList
           items := [{ attributeName := "layout_width".toList, value := "0dp".toList }] }] ∧
      (gather {} [overlookedRule]).diagnostics = [] := by
  intro width value
  let reference : Reference :=
    ⟨"w".toList, some " auto!important".toList, "var(--w, auto!important)".toList⟩
  have hreference : firstReference? "var(--w, auto!important)".toList =
      some ⟨[], reference, []⟩ := by decide +kernel
  have hfate : reference.fate (VariableTable.value? ∅) [] 256 =
      .replaced " auto!important".toList := by decide +kernel
  have hresolution : width.resolution ∅ = ⟨"auto!important".toList, [], [], []⟩ :=
    resolve_of_reference hreference hfate (by decide +kernel)
  have hvalue : value = "auto!important".toList := congrArg Resolution.value hresolution
  let items : List Item := [{ attributeName := "layout_width".toList, value := "0dp".toList }]
  have hconvert : width.convert ∅ (.extent .width) = (some items, []) := by
    rw [Declaration.resolution] at hresolution
    rw [Declaration.convert, hresolution]
    decide +kernel
  let s₀ := (Session.start {}).openRule {} overlookedRule
  have hrules : (Session.start {}).rules {} [overlookedRule] =
      s₀.declare .styles (overlookedRule.targets {}) width := rfl
  have htargets : overlookedRule.targets {} = ["a".toList] := by decide +kernel
  have hdeclare : s₀.declare .styles ["a".toList] width =
      { s₀.report [] with styles := s₀.styles.write ["a".toList] "width".toList items } := by
    rw [Session.declare_of_ofName? (p := .extent .width) .styles (by decide +kernel)
      (by decide +kernel) (List.cons_ne_nil _ _)]
    exact Session.apply_of_some _ hconvert
  refine ⟨hvalue, ?_, ?_, ?_⟩
  · rw [hvalue]
    decide +kernel
  · rw [gather, hrules, htargets, hdeclare]
    decide +kernel
  · rw [gather, hrules, htargets, hdeclare]
    decide +kernel

end CssResources
