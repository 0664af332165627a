import CssResources.Proofs.Stylesheet.Places
import CssResources.Proofs.Variable.Spelling

/-!
# What can be defined can be referred to

A custom property is named in two places, by two grammars. A declaration is read by
`CssResources.Declaration.ofText?`: the property is all that stands before the colon, without the
blanks around it. A reference is read by `CssResources.opening?`: the name is as long as it can
be, and what is left must be blanks and a mark. This file says that **the two grammars have the
same names** (`CssResources.isDefinable_iff`), so that a property that a stylesheet defines can be
used, and none can be used that no stylesheet could define.

A use is then spelled out with all that may stand around the name
(`CssResources.resolve_spelled_reference`). The texts before and after it, and the one that is put
in its place, must be without `var(`: the beginning of another reference would be read with what
follows it. The fallback must have balanced parentheses, as it ends where the first parenthesis is
closed that it does not open; its quotes do not matter.
-/

namespace CssResources

/-! ### Names that can be defined -/

/-- **A name that a custom property can be defined by**: some declaration is read that defines
it. -/
def IsDefinable (name : Text) : Prop :=
  ∃ line t d, Declaration.ofText? line t = some d ∧ d.customName? = some name

theorem isVariableChar_eq_isNameChar (c : Char) : isVariableChar c = Declaration.isNameChar c :=
  Bool.or_right_comm _ _ _

/-- **Definitions and references have the same names.** -/
theorem isDefinable_iff {name : Text} (hne : name ≠ []) :
    IsDefinable name ↔ IsVariableName name := by
  constructor
  · rintro ⟨line, t, d, hd, hcustom⟩
    obtain ⟨-, written, -, -, -, -, hwritten, hproperty, -⟩ :=
      Declaration.exists_name_of_ofText? hd
    have hname : Declaration.canonicalName written = "--".toList ++ name :=
      hproperty.symm.trans (afterStart?_eq_some_iff.mp hcustom)
    refine ⟨hne, fun c hc => ?_⟩
    rw [isVariableChar_eq_isNameChar]
    refine Declaration.isNameChar_of_mem_canonicalName hwritten ?_
    rw [hname]
    exact List.mem_append_right _ hc
  · intro hname
    let d : Declaration := ⟨"--".toList ++ name, "0".toList, 0⟩
    have hproperty : IsPropertyText d.property := by
      refine ⟨by simp [d], List.all_eq_true.mpr fun c hc => ?_, Or.inl (List.prefix_append _ _)⟩
      rcases List.mem_append.mp hc with hc | hc
      · obtain rfl : c = '-' := by simpa using hc
        decide
      · rw [← isVariableChar_eq_isNameChar]
        exact hname.nameChars c hc
    have hvalue : IsValueText "0".toList :=
      ⟨⟨⟨by decide, by decide, by decide⟩, by decide, by decide⟩, by decide, by decide, by decide⟩
    have hcustom : d.customName? = some name := afterStart?_eq_some_iff.mpr rfl
    exact ⟨0, [] ++ d.pair, d, ofText?_append_pair rfl hproperty hvalue 0, hcustom⟩

/-! ### References that are spelled out -/

/-- **A reference that is spelled out is replaced by its source**, whatever closes it. -/
theorem resolve_openingText {lookup : Text → Option Text} {limit : Nat}
    {before lead name trail t source : Text} {d : Closing} (hlimit : 1 ≤ limit)
    (hname : IsVariableName name) (hlead : isAllBlank lead = true)
    (htrail : isAllBlank trail = true) (hbefore : ¬"var(".toList <:+: before)
    (hd : closing? t = some d) (hafter : ¬"var(".toList <:+: d.rest)
    (hsource : (lookup name).or d.fallback? = some source)
    (hplain : ¬"var(".toList <:+: source) :
    resolve lookup limit (before ++ (openingText lead name trail ++ t)) =
      { value := before ++ (trim source ++ d.rest), unresolved := [], cycles := [],
        truncated := [] } := by
  obtain ⟨limit, rfl⟩ := Nat.exists_eq_add_of_le' hlimit
  have hcut := firstReference?_openingText hbefore hname hlead htrail hd
  have htrim : ¬"var(".toList <:+: trim source := fun h => hplain (h.trans (trim_isInfix source))
  refine resolve_of_replaced hcut ?_ (firstReference?_of_not_isInfix htrim)
    (firstReference?_of_not_isInfix hafter)
  exact Reference.fate_eq_replaced_iff.mpr ⟨List.not_mem_nil, hsource, Nat.succ_ne_zero limit⟩

/-! ### The theorem -/

/-- **A property that can be defined can be referred to**, with whatever blanks around its name. It
is replaced by its value if it has one, and by the fallback if it has none; nothing is reported. -/
theorem resolve_spelled_reference (table : VariableTable) {limit : Nat}
    {before lead name trail after : Text} (hlimit : 1 ≤ limit) (hne : name ≠ [])
    (hname : IsDefinable name) (hlead : isAllBlank lead = true) (htrail : isAllBlank trail = true)
    (hbefore : ¬"var(".toList <:+: before) (hafter : ¬"var(".toList <:+: after) :
    (∀ value, table.value? name = some value → ¬"var(".toList <:+: value →
        resolve table.value? limit (before ++ (openingText lead name trail ++ ')' :: after)) =
          { value := before ++ (trim value ++ after), unresolved := [], cycles := [],
            truncated := [] }) ∧
      (table.value? name = none → ∀ fallback, Brackets.parens.IsBalanced fallback →
        ¬"var(".toList <:+: fallback →
        resolve table.value? limit
            (before ++ (openingText lead name trail ++ ',' :: (fallback ++ ')' :: after))) =
          { value := before ++ (trim fallback ++ after), unresolved := [], cycles := [],
            truncated := [] }) := by
  have hname := (isDefinable_iff hne).mp hname
  refine ⟨fun value hvalue hplain => ?_, fun hnone fallback hbalanced hplain => ?_⟩
  · have hclosing : closing? (')' :: after) = some ⟨[')'], none, after⟩ := rfl
    have hsource : (table.value? name).or none = some value := by rw [hvalue, Option.some_or]
    exact resolve_openingText hlimit hname hlead htrail hbefore hclosing hafter hsource hplain
  · have hclosing := closing?_fallback hbalanced after
    have hsource : (table.value? name).or (some fallback) = some fallback := by
      rw [hnone, Option.none_or]
    exact resolve_openingText hlimit hname hlead htrail hbefore hclosing hafter hsource hplain

/-- A table with one property, whose value has a blank at its end. -/
def gutterTable : VariableTable := VariableTable.define ∅ "Gutter".toList "8px ".toList 1

theorem resolve_spelled_reference_gutter :
    1 ≤ 2 ∧ ("Gutter".toList ≠ [] ∧ IsDefinable "Gutter".toList) ∧
      ("--rim".toList ≠ [] ∧ IsDefinable "--rim".toList) ∧
      resolve gutterTable.value? 2 "calc(var( --Gutter\t) * 2)".toList =
        { value := "calc(8px * 2)".toList, unresolved := [], cycles := [], truncated := [] } ∧
      resolve gutterTable.value? 2 "calc(var( ----rim\t, (1px) ) * 2)".toList =
        { value := "calc((1px) * 2)".toList, unresolved := [], cycles := [], truncated := [] } := by
  have hlimit : 1 ≤ 2 := by decide
  have hne : "Gutter".toList ≠ [] := by decide
  have hname : IsDefinable "Gutter".toList :=
    ⟨1, "--Gutter: 8px".toList, ⟨"--Gutter".toList, "8px".toList, 1⟩, by decide, by decide⟩
  have hneRim : "--rim".toList ≠ [] := by decide
  have hnameRim : IsDefinable "--rim".toList :=
    ⟨1, "----rim: 1px".toList, ⟨"----rim".toList, "1px".toList, 1⟩, by decide, by decide⟩
  have hlead : isAllBlank " ".toList = true := by decide
  have htrail : isAllBlank "\t".toList = true := by decide
  have hbefore : ¬"var(".toList <:+: "calc(".toList := by decide
  have hafter : ¬"var(".toList <:+: " * 2)".toList := by decide
  have hgutter : ¬"var(".toList <:+: "8px ".toList := by decide
  have hbalanced : Brackets.parens.IsBalanced " (1px) ".toList := by decide
  have hrim : ¬"var(".toList <:+: " (1px) ".toList := by decide +kernel
  have hdefined := (resolve_spelled_reference gutterTable hlimit hne hname hlead htrail hbefore
    hafter).1 "8px ".toList rfl hgutter
  have hundefined := (resolve_spelled_reference gutterTable hlimit hneRim hnameRim hlead htrail
    hbefore hafter).2 rfl " (1px) ".toList hbalanced hrim
  have huse : "calc(var( --Gutter\t) * 2)".toList = "calc(".toList ++
      (openingText " ".toList "Gutter".toList "\t".toList ++ ')' :: " * 2)".toList) := by decide
  have huseRim : "calc(var( ----rim\t, (1px) ) * 2)".toList = "calc(".toList ++
      (openingText " ".toList "--rim".toList "\t".toList ++
        ',' :: (" (1px) ".toList ++ ')' :: " * 2)".toList)) := by decide
  have hvalue : "calc(8px * 2)".toList =
      "calc(".toList ++ (trim "8px ".toList ++ " * 2)".toList) := by decide
  have hvalueRim : "calc((1px) * 2)".toList =
      "calc(".toList ++ (trim " (1px) ".toList ++ " * 2)".toList) := by decide
  rw [huse, huseRim, hvalue, hvalueRim]
  exact ⟨hlimit, ⟨hne, hname⟩, ⟨hneRim, hnameRim⟩, hdefined, hundefined⟩

end CssResources
