import CssResources.Proofs.Property.Translation

/-!
# Shorthands and their sides

A shorthand such as `padding` gives all four sides of a box their spacing at once, and a property
such as `padding-left` gives it to one. The two are translated by different functions, and **a
shorthand is its sides** (`CssResources.translate_shorthand_eq_sides`): it has the items that the
four properties have, each for the token of its side, or none if one of them has none.

Which token is the one of a side is said here by the rule for boxes, side by side
(`CssResources.boxToken?`), and not by the row of four that the translation cuts out of a value.

| tokens | top | right | bottom | left |
|---|---|---|---|---|
| one | first | first | first | first |
| two | first | second | first | second |
| three | first | second | third | second |
| four | first | second | third | fourth |

One token is for all sides alike, and it has a single item, which is named for the box.
-/

namespace CssResources

/-! ### Results that are all there -/

section MapM

variable {α β : Type} {f : α → Option β} {l : List α}

/-- Results that are all there stand in a row. -/
theorem mapM_eq_some_map {g : α → β} (h : ∀ a ∈ l, f a = some (g a)) :
    l.mapM f = some (l.map g) := by
  induction l with
  | nil => rfl
  | cons a l ih =>
    rw [List.mapM_cons, h a (List.mem_cons_self ..), ih fun b hb => h b (List.mem_cons_of_mem _ hb)]
    rfl

/-- One missing result is enough for there to be none. -/
theorem mapM_eq_none {a : α} (ha : a ∈ l) (h : f a = none) : l.mapM f = none := by
  induction l with
  | nil => cases ha
  | cons b l ih =>
    rw [List.mapM_cons]
    rcases List.mem_cons.mp ha with rfl | ha
    · rw [h]
      rfl
    · rw [ih ha]
      cases f b <;> rfl

end MapM

/-! ### The token of a side -/

/-- **The token of a side**, by the rule for boxes: a side that has no token of its own has that of
the side opposite, and the right side that of the top. -/
def boxToken? (ts : List Text) : Side → Option Text
  | .top => ts[0]?
  | .right => ts[1]?.or ts[0]?
  | .bottom => ts[2]?.or ts[0]?
  | .left => ts[3]?.or (ts[1]?.or ts[0]?)

/-- **The row of tokens that a shorthand is translated by** has the token of each side. -/
theorem exists_sideTokens?_eq {ts : List Text} (h : 2 ≤ ts.length ∧ ts.length ≤ 4) :
    ∃ token : Side → Text, (∀ side, boxToken? ts side = some (token side)) ∧
      sideTokens? ts = some (Side.all.map token) := by
  refine ⟨fun side => (boxToken? ts side).getD [], ?_⟩
  match ts with
  | [] => exact absurd h.1 (by simp)
  | [_] => exact absurd h.1 (by simp)
  | [_, _] => exact ⟨fun side => by cases side <;> rfl, rfl⟩
  | [_, _, _] => exact ⟨fun side => by cases side <;> rfl, rfl⟩
  | [_, _, _, _] => exact ⟨fun side => by cases side <;> rfl, rfl⟩
  | _ :: _ :: _ :: _ :: _ :: _ => exact absurd h.2 (by simp)

/-- Other numbers of tokens give no row. -/
theorem sideTokens?_eq_none {ts : List Text} (h : ts = [] ∨ 4 < ts.length) :
    sideTokens? ts = none := by
  match ts with
  | [] => rfl
  | [_] => rfl
  | [_, _] | [_, _, _] | [_, _, _, _] => simp at h
  | _ :: _ :: _ :: _ :: _ :: _ => rfl

/-! ### One side -/

section OneSide

variable {spacing : Spacing} {side : Side} {token : Text} {i : Item}

theorem translate_edge_of_some (h : sideItem? spacing side token = some i) :
    (Property.edge spacing side).translate token = .single i := by
  obtain ⟨v, hv, rfl⟩ := Option.map_eq_some_iff.mp h
  rw [Property.translate, hv]
  rfl

theorem translate_edge_eq_none_iff :
    (Property.edge spacing side).translate token = .none ↔
      sideItem? spacing side token = none := by
  rw [sideItem?, Option.map_eq_none_iff, Property.translate]
  cases unlessReference (lengthIn? scaledUnit) token <;> simp [Translation.ofValue?]

/-- **A side has one item, or none**, and so has the box with this token for all its sides: the
value is the same. -/
theorem translate_edge_cases (spacing : Spacing) (side : Side) (token : Text) :
    ((Property.edge spacing side).translate token = .none ∧
        Translation.ofValue? spacing.attributeName (unlessReference (lengthIn? scaledUnit) token) =
          .none) ∨
      ∃ v, (Property.edge spacing side).translate token =
          .single { attributeName := spacing.sideAttribute side, value := v } ∧
        Translation.ofValue? spacing.attributeName (unlessReference (lengthIn? scaledUnit) token) =
          .single { attributeName := spacing.attributeName, value := v } := by
  rw [Property.translate]
  cases unlessReference (lengthIn? scaledUnit) token with
  | none => exact .inl ⟨rfl, rfl⟩
  | some v => exact .inr ⟨v, rfl, rfl⟩

end OneSide

/-! ### All sides -/

section AllSides

variable {spacing : Spacing} {value : Text} {token : Side → Text}
  (htokens : sideTokens? (tokens value) = some (Side.all.map token))

include htokens in
/-- **A shorthand with a token for each side** is translated side by side. -/
theorem translateShorthand_eq_mapM :
    translateShorthand spacing value =
      match Side.all.mapM fun side => sideItem? spacing side (token side) with
      | some items => .multiple items
      | none => .none := by
  rw [translateShorthand]
  split
  · rename_i t ht
    rw [ht] at htokens
    cases htokens
  · rw [htokens]
    rfl

include htokens in
/-- **Sides that all have an item** give a shorthand these items. -/
theorem translateShorthand_of_forall
    (h : ∀ side, (Property.edge spacing side).translate (token side) ≠ .none) :
    translateShorthand spacing value =
      .multiple (Side.all.flatMap fun side =>
        ((Property.edge spacing side).translate (token side)).items) := by
  have hitem : ∀ side, ∃ i, sideItem? spacing side (token side) = some i := fun side =>
    Option.ne_none_iff_exists'.mp fun hnone => h side (translate_edge_eq_none_iff.mpr hnone)
  choose item hitem using hitem
  have hitems (side : Side) :
      ((Property.edge spacing side).translate (token side)).items = [item side] := by
    rw [translate_edge_of_some (hitem side)]
    rfl
  rw [translateShorthand_eq_mapM htokens, mapM_eq_some_map fun side _ => hitem side]
  simp only [hitems, ← List.map_eq_flatMap]

include htokens in
/-- **A side without an item** leaves its shorthand without items. -/
theorem translateShorthand_of_exists {side : Side}
    (h : (Property.edge spacing side).translate (token side) = .none) :
    translateShorthand spacing value = .none := by
  have hmem : side ∈ Side.all := by cases side <;> decide
  rw [translateShorthand_eq_mapM htokens, mapM_eq_none hmem (translate_edge_eq_none_iff.mp h)]

end AllSides

/-! ### The theorem -/

/-- **A shorthand is its sides.** Of two, three or four tokens it makes what the four sides make of
theirs, one after the other, and nothing if a side makes nothing. Of one token it makes the item
for all sides, with the value that any side has of this token, and nothing if the sides make
nothing. Of no token, and of more than four, it makes nothing. -/
theorem translate_shorthand_eq_sides (spacing : Spacing) (value : Text) :
    (2 ≤ (tokens value).length ∧ (tokens value).length ≤ 4 →
        ∃ token : Side → Text, (∀ side, boxToken? (tokens value) side = some (token side)) ∧
          ((∀ side, (Property.edge spacing side).translate (token side) ≠ .none) →
            (Property.shorthand spacing).translate value =
              .multiple (Side.all.flatMap fun side =>
                ((Property.edge spacing side).translate (token side)).items)) ∧
          ((∃ side, (Property.edge spacing side).translate (token side) = .none) →
            (Property.shorthand spacing).translate value = .none)) ∧
      (∀ token, tokens value = [token] → ∀ side,
        ((Property.edge spacing side).translate token = .none ∧
            (Property.shorthand spacing).translate value = .none) ∨
          ∃ v, (Property.edge spacing side).translate token =
              .single { attributeName := spacing.sideAttribute side, value := v } ∧
            (Property.shorthand spacing).translate value =
              .single { attributeName := spacing.attributeName, value := v }) ∧
      (tokens value = [] ∨ 4 < (tokens value).length →
        (Property.shorthand spacing).translate value = .none) := by
  refine ⟨fun hlength => ?_, fun token htoken side => ?_, fun hlength => ?_⟩
  · obtain ⟨token, hbox, htokens⟩ := exists_sideTokens?_eq hlength
    exact ⟨token, hbox, translateShorthand_of_forall htokens,
      fun ⟨side, hside⟩ => translateShorthand_of_exists htokens hside⟩
  · rw [Property.translate, translateShorthand, htoken]
    exact translate_edge_cases spacing side token
  · rw [Property.translate, translateShorthand]
    split
    · rename_i token htoken
      simp [htoken] at hlength
    · rw [sideTokens?_eq_none hlength]
      rfl

/-- A value with three tokens: a length, a reference with a fallback, and a number. -/
def gapValue : Text := "4px var(--gap, 1px 2px) 0".toList

theorem translate_shorthand_eq_sides_gap :
    (2 ≤ (tokens gapValue).length ∧ (tokens gapValue).length ≤ 4) ∧
      boxToken? (tokens gapValue) .left = some "var(--gap, 1px 2px)".toList ∧
      ((Property.shorthand .margin).translate gapValue).items.map Item.summary =
        ["android:layout_marginTop=4sp".toList,
          "android:layout_marginRight=var(--gap, 1px 2px)".toList,
          "android:layout_marginBottom=0sp".toList,
          "android:layout_marginLeft=var(--gap, 1px 2px)".toList] := by
  have hlength : 2 ≤ (tokens gapValue).length ∧ (tokens gapValue).length ≤ 4 := by decide +kernel
  have hleft : boxToken? (tokens gapValue) .left = some "var(--gap, 1px 2px)".toList := by
    decide +kernel
  refine ⟨hlength, hleft, ?_⟩
  obtain ⟨token, hbox, hitems, -⟩ := (translate_shorthand_eq_sides .margin gapValue).1 hlength
  have htop : token .top = "4px".toList :=
    Option.some.inj ((hbox .top).symm.trans (by decide +kernel))
  have hright : token .right = "var(--gap, 1px 2px)".toList :=
    Option.some.inj ((hbox .right).symm.trans (by decide +kernel))
  have hbottom : token .bottom = "0".toList :=
    Option.some.inj ((hbox .bottom).symm.trans (by decide +kernel))
  have hleft : token .left = "var(--gap, 1px 2px)".toList :=
    Option.some.inj ((hbox .left).symm.trans hleft)
  have hall : ∀ side, (Property.edge .margin side).translate (token side) ≠ .none := by
    intro side
    cases side
    · rw [htop]
      decide +kernel
    · rw [hright]
      decide +kernel
    · rw [hbottom]
      decide +kernel
    · rw [hleft]
      decide +kernel
  rw [hitems hall]
  simp only [Side.all, List.flatMap_cons, List.flatMap_nil, htop, hright, hbottom, hleft]
  decide +kernel

end CssResources
