import CssResources.Property.Translation
import Mathlib.Data.List.Forall2

/-!
# What a property makes of a value

A property makes one item of a value, or several, and each of them from a **part** of the
value: most properties take the value as a whole, a shorthand takes a token for each side
(`CssResources.Property.parts`). What can be made of a part is said once
(`CssResources.IsMadeOf`), and then for all items along the two lists
(`CssResources.Property.forall₂_isMadeOf`), so what holds of each thing that is made holds of
the items of all properties.

Of one value no property makes two items of the same name
(`CssResources.Property.nodup_names_translate`).
-/

namespace CssResources

/-! ### Lists of results -/

/-- Results that are all there stand in the order of what they come from. -/
theorem forall₂_of_mapM_eq_some {α β : Type} {f : α → Option β} {l : List α} {l' : List β}
    (h : l.mapM f = some l') : List.Forall₂ (fun a b => f a = some b) l l' := by
  induction l generalizing l' with
  | nil =>
    obtain rfl : [] = l' := by simpa using h
    exact .nil
  | cons a l ih =>
    rw [List.mapM_cons] at h
    obtain ⟨b, hb, h⟩ := Option.bind_eq_some_iff.mp h
    obtain ⟨bs, hbs, h⟩ := Option.bind_eq_some_iff.mp h
    obtain rfl : b :: bs = l' := Option.some.inj h
    exact .cons hb (ih hbs)

/-- Each of the results in a row comes from one of what they are made from. -/
theorem exists_of_mem_forall₂ {α β : Type} {R : α → β → Prop} {l : List α} {l' : List β}
    (h : List.Forall₂ R l l') {b : β} (hb : b ∈ l') : ∃ a ∈ l, R a b := by
  induction h with
  | nil => exact absurd hb List.not_mem_nil
  | cons hab _ ih =>
    rcases List.mem_cons.mp hb with rfl | hb
    · exact ⟨_, List.mem_cons_self .., hab⟩
    · obtain ⟨a, ha, hr⟩ := ih hb
      exact ⟨a, List.mem_cons_of_mem _ ha, hr⟩

/-! ### Converted values -/

section Converted

variable {value v : Text}

/-- A text color stands in capitals, unless it is made into a literal. -/
theorem textColor_cases (value : Text) :
    textColor value = uppercase value ∨ colorHex? value = some (textColor value) := by
  rw [textColor]
  split
  · cases colorHex? value with
    | none => exact Or.inl rfl
    | some v => exact Or.inr rfl
  · exact Or.inl rfl

/-- The literal of a color stands in capitals, unless it is made by a function. -/
theorem colorLiteral?_cases (h : colorLiteral? value = some v) :
    v = uppercase (trim value) ∨ colorHex? (trim value) = some v := by
  rw [colorLiteral?] at h
  split at h
  · obtain ⟨c, -, rfl⟩ := Option.map_eq_some_iff.mp h
    exact Or.inl rfl
  · split at h
    · exact Or.inr h
    · split at h
      · exact Or.inl (Option.some.inj h).symm
      · simp at h

/-- The words for decorations. -/
theorem mem_of_decoration? (h : decoration? value = some v) :
    v ∈ ["Underline".toList, "LineThrough".toList] := by
  rw [decoration?] at h
  split at h
  · obtain rfl := Option.some.inj h
    decide
  · split at h
    · obtain rfl := Option.some.inj h
      decide
    · simp at h

/-- The words for alignments. -/
theorem mem_of_gravity? (h : gravity? value = some v) :
    v ∈ ["start".toList, "center".toList, "end".toList] := by
  rw [gravity?] at h
  split at h
  · obtain rfl := Option.some.inj h
    decide
  · split at h
    · obtain rfl := Option.some.inj h
      decide
    · split at h
      · obtain rfl := Option.some.inj h
        decide
      · simp at h

end Converted

/-! ### The parts of a value -/

/-- **The parts of a value**, one for each item that a property makes of it: a shorthand makes
one of the token of each side, or of its only token; a percentage is made into two items; all
else is made into one. -/
def Property.parts (p : Property) (value : Text) : List Text :=
  match p with
  | shorthand _ => (sideTokens? (tokens value)).getD (tokens value)
  | extent _ => if (percentage? value).isSome then [value, value] else [value]
  | _ => [value]

/-- The tokens of the sides are as many as the sides. -/
theorem length_of_sideTokens? {ts sides : List Text} (h : sideTokens? ts = some sides) :
    sides.length = Side.all.length := by
  unfold sideTokens? at h
  split at h
  all_goals first
    | obtain rfl := Option.some.inj h
      rfl
    | simp at h

/-- The tokens of the sides are tokens of the shorthand. -/
theorem subset_of_sideTokens? {ts sides : List Text} (h : sideTokens? ts = some sides) :
    sides ⊆ ts := by
  unfold sideTokens? at h
  split at h
  all_goals first
    | obtain rfl := Option.some.inj h
      simp
    | simp at h

/-- **What a shorthand makes of a value**: an item for all sides of its only token, or nothing,
or an item of the token of each side. -/
theorem translateShorthand_cases (spacing : Spacing) (value : Text) :
    (∃ token, (Property.shorthand spacing).parts value = [token] ∧
        translateShorthand spacing value =
          .ofValue? spacing.attributeName (unlessReference (lengthIn? scaledUnit) token)) ∨
      translateShorthand spacing value = .none ∨
      ∃ sides items, (Property.shorthand spacing).parts value = sides ∧
        sides.length = Side.all.length ∧ translateShorthand spacing value = .multiple items ∧
        List.Forall₂ (fun p i => sideItem? spacing p.1 p.2 = some i) (Side.all.zip sides)
          items := by
  rw [translateShorthand, Property.parts]
  generalize tokens value = ts
  split
  · exact Or.inl ⟨_, rfl, rfl⟩
  · refine Or.inr ?_
    split
    · rename_i items hitems
      obtain ⟨sides, hsides, hmap⟩ := Option.bind_eq_some_iff.mp hitems
      exact Or.inr ⟨sides, items, by rw [hsides, Option.getD_some], length_of_sideTokens? hsides,
        rfl, forall₂_of_mapM_eq_some hmap⟩
    · exact Or.inl rfl

/-- **A part of a value** is the whole value or a token of it. -/
theorem Property.eq_or_mem_tokens_of_mem_parts (p : Property) {value part : Text}
    (h : part ∈ p.parts value) : part = value ∨ part ∈ tokens value := by
  cases p with
  | shorthand spacing =>
    refine .inr ?_
    rw [parts] at h
    cases hsides : sideTokens? (tokens value) with
    | none => rwa [hsides] at h
    | some sides =>
      rw [hsides] at h
      exact subset_of_sideTokens? hsides h
  | extent e =>
    rw [parts] at h
    split at h
    · exact .inl (by simpa using h)
    · exact .inl (List.mem_singleton.mp h)
  | _ => exact .inl (List.mem_singleton.mp h)

/-! ### What is made of a part -/

/-- **A value is made of a part**: it is the part as it stands, or it is computed. What keeps a
reference is not computed with. -/
inductive IsMadeOf (part : Text) : Text → Prop where
  /-- The part as it stands. -/
  | kept : IsMadeOf part part
  /-- The color of a text. -/
  | color (h : hasReference part = false) : IsMadeOf part (textColor part)
  /-- A length. -/
  | length {unit v : Text} (h : hasReference part = false) (hunit : unit ∈ [scaledUnit, plainUnit])
      (hv : lengthIn? unit part = some v) : IsMadeOf part v
  /-- A decoration of a text. -/
  | decoration {v : Text} (h : hasReference part = false) (hv : decoration? part = some v) :
      IsMadeOf part v
  /-- An alignment of a text. -/
  | gravity {v : Text} (h : hasReference part = false) (hv : gravity? part = some v) :
      IsMadeOf part v
  /-- An opacity. -/
  | opacity {v : Text} (h : hasReference part = false) (hv : opacityText? part = some v) :
      IsMadeOf part v
  /-- The size that goes with a weight. -/
  | zero {percent : Int} (h : percentage? part = some percent) : IsMadeOf part "0dp".toList
  /-- A weight. -/
  | weight {percent : Int} (h : percentage? part = some percent) :
      IsMadeOf part (weightText percent)

/-- **An item is made of a part of a value.** It is not commented out yet. -/
def Item.IsMadeOf (part : Text) (i : Item) : Prop :=
  CssResources.IsMadeOf part i.value ∧ i.commented = false

section MadeOf

variable {value v attributeName : Text} {f : Text → Option Text}

theorem isMadeOf_of_unlessReference
    (hf : ∀ v, hasReference value = false → f value = some v → IsMadeOf value v)
    (h : unlessReference f value = some v) : IsMadeOf value v := by
  rw [unlessReference] at h
  split at h
  · obtain rfl := Option.some.inj h
    exact .kept
  · rename_i hvalue
    exact hf v (Bool.eq_false_iff.mpr hvalue) h

theorem forall₂_isMadeOf_ofValue?
    (hf : ∀ v, hasReference value = false → f value = some v → IsMadeOf value v)
    (h : (Translation.ofValue? attributeName (unlessReference f value)).items ≠ []) :
    List.Forall₂ Item.IsMadeOf [value]
      (Translation.ofValue? attributeName (unlessReference f value)).items := by
  cases hv : unlessReference f value with
  | none => exact absurd (by rw [hv]; rfl) h
  | some v => exact .cons ⟨isMadeOf_of_unlessReference hf hv, rfl⟩ .nil

theorem isMadeOf_of_lengthIn? {unit : Text} (hunit : unit ∈ [scaledUnit, plainUnit]) (v : Text)
    (h : hasReference value = false) (hv : lengthIn? unit value = some v) : IsMadeOf value v :=
  .length h hunit hv

theorem isMadeOf_of_sideItem? {spacing : Spacing} {side : Side} {token : Text} {i : Item}
    (h : sideItem? spacing side token = some i) : i.IsMadeOf token := by
  obtain ⟨v, hv, rfl⟩ := Option.map_eq_some_iff.mp h
  exact ⟨isMadeOf_of_unlessReference (isMadeOf_of_lengthIn? (by simp)) hv, rfl⟩

/-- **The items of a value are made of its parts**, one by one. -/
theorem Property.forall₂_isMadeOf (p : Property) (h : (p.translate value).items ≠ []) :
    List.Forall₂ Item.IsMadeOf (p.parts value) (p.translate value).items := by
  have hscaled : scaledUnit ∈ [scaledUnit, plainUnit] := by simp
  have hplain : plainUnit ∈ [scaledUnit, plainUnit] := by simp
  cases p with
  | color =>
    refine forall₂_isMadeOf_ofValue? (fun v hvalue hv => ?_) h
    obtain rfl := Option.some.inj hv
    exact .color hvalue
  | fontSize => exact forall₂_isMadeOf_ofValue? (isMadeOf_of_lengthIn? hscaled) h
  | fontWeight => exact .cons ⟨.kept, rfl⟩ .nil
  | fontFamily => exact .cons ⟨.kept, rfl⟩ .nil
  | backgroundColor => exact .cons ⟨.kept, rfl⟩ .nil
  | textDecoration => exact forall₂_isMadeOf_ofValue? (fun _ => .decoration) h
  | textAlign => exact forall₂_isMadeOf_ofValue? (fun _ => .gravity) h
  | opacity => exact forall₂_isMadeOf_ofValue? (fun _ => .opacity) h
  | shorthand spacing =>
    rw [translate] at h ⊢
    rcases translateShorthand_cases spacing value with
      ⟨token, hparts, hitems⟩ | hnone | ⟨sides, items, hparts, hlength, hitems, hsides⟩
    · rw [hitems] at h ⊢
      rw [hparts]
      exact forall₂_isMadeOf_ofValue? (isMadeOf_of_lengthIn? hscaled) h
    · exact absurd (by rw [hnone]; rfl) h
    · have hsnd : (Side.all.zip sides).map Prod.snd = sides :=
        List.map_snd_zip (Nat.le_of_eq hlength)
      rw [hparts, hitems, ← hsnd, List.forall₂_map_left_iff]
      exact hsides.imp fun _ _ => isMadeOf_of_sideItem?
  | edge spacing side => exact forall₂_isMadeOf_ofValue? (isMadeOf_of_lengthIn? hscaled) h
  | extent e =>
    rw [translate, translateExtent] at h ⊢
    rw [parts]
    cases hpercent : percentage? value with
    | none =>
      rw [hpercent] at h
      exact forall₂_isMadeOf_ofValue? (isMadeOf_of_lengthIn? hplain) h
    | some percent => exact .cons ⟨.zero hpercent, rfl⟩ (.cons ⟨.weight hpercent, rfl⟩ .nil)

end MadeOf

/-! ### Names -/

/-- The name of an item for an attribute. -/
def itemName (attributeName : Text) : Text := "android:".toList ++ attributeName

theorem name_of_sideItem? {spacing : Spacing} {side : Side} {token : Text} {i : Item}
    (h : sideItem? spacing side token = some i) :
    i.name = itemName (spacing.sideAttribute side) := by
  obtain ⟨value, -, rfl⟩ := Option.map_eq_some_iff.mp h
  rfl

theorem name_of_mem_ofValue? {attributeName : Text} {value? : Option Text} {i : Item}
    (h : i ∈ (Translation.ofValue? attributeName value?).items) : i.name = itemName attributeName := by
  cases value? with
  | none => exact absurd h List.not_mem_nil
  | some value =>
    obtain rfl := List.mem_singleton.mp h
    rfl

/-- **The attributes of a property.** -/
def Property.attributeNames : Property → List Text
  | color => ["textColor".toList]
  | fontSize => ["textSize".toList]
  | fontWeight => ["textStyle".toList]
  | fontFamily => ["fontFamily".toList]
  | backgroundColor => ["background".toList]
  | textDecoration => ["textDecoration".toList]
  | textAlign => ["gravity".toList]
  | opacity => ["alpha".toList]
  | shorthand spacing => spacing.attributeName :: Side.all.map spacing.sideAttribute
  | edge spacing side => [spacing.sideAttribute side]
  | extent e => [e.attributeName, "layout_weight".toList]

/-- **Each item of a property is for one of its attributes.** -/
theorem Property.exists_name_of_mem_translate (p : Property) {value : Text} {i : Item}
    (hi : i ∈ (p.translate value).items) : ∃ a ∈ p.attributeNames, i.name = itemName a := by
  cases p with
  | shorthand spacing =>
    rw [translate] at hi
    rcases translateShorthand_cases spacing value with
      ⟨token, -, hitems⟩ | hnone | ⟨sides, items, -, -, hitems, hsides⟩
    · rw [hitems] at hi
      exact ⟨_, List.mem_cons_self .., name_of_mem_ofValue? hi⟩
    · rw [hnone] at hi
      exact absurd hi List.not_mem_nil
    · rw [hitems] at hi
      obtain ⟨⟨side, token⟩, hside, hitem⟩ := exists_of_mem_forall₂ hsides hi
      exact ⟨_, List.mem_cons_of_mem _ (List.mem_map_of_mem (List.of_mem_zip hside).1),
        name_of_sideItem? hitem⟩
  | extent e =>
    rw [translate, translateExtent] at hi
    split at hi
    · rcases List.mem_cons.mp hi with rfl | hi
      · exact ⟨_, List.mem_cons_self .., rfl⟩
      · obtain rfl := List.mem_singleton.mp hi
        exact ⟨_, List.mem_cons_of_mem _ (List.mem_singleton_self _), rfl⟩
    · exact ⟨_, List.mem_cons_self .., name_of_mem_ofValue? hi⟩
  | _ =>
    rw [translate] at hi
    exact ⟨_, List.mem_singleton_self _, name_of_mem_ofValue? hi⟩

theorem nodup_names_ofValue? (attributeName : Text) (value? : Option Text) :
    ((Translation.ofValue? attributeName value?).items.map Item.name).Nodup := by
  cases value? with
  | none => exact List.nodup_nil
  | some value => exact List.pairwise_singleton _ _

/-- The items of the sides have the names of the sides. -/
theorem map_name_of_forall₂ {spacing : Spacing} {sides : List Text} {items : List Item}
    (hlength : sides.length = Side.all.length)
    (h : List.Forall₂ (fun p i => sideItem? spacing p.1 p.2 = some i) (Side.all.zip sides) items) :
    items.map Item.name = Side.all.map fun side => itemName (spacing.sideAttribute side) := by
  have hzip : items.map Item.name =
      (Side.all.zip sides).map fun p => itemName (spacing.sideAttribute p.1) := by
    clear hlength
    generalize Side.all.zip sides = ps at h
    induction h with
    | nil => rfl
    | cons hitem _ ih => rw [List.map_cons, List.map_cons, name_of_sideItem? hitem, ih]
  have hfst : (Side.all.zip sides).map Prod.fst = Side.all :=
    List.map_fst_zip (Nat.le_of_eq hlength.symm)
  rw [hzip]
  conv => rhs; rw [← hfst, List.map_map]
  rfl

/-- **Of one value no property makes two items of the same name.** -/
theorem Property.nodup_names_translate (p : Property) (value : Text) :
    ((p.translate value).items.map Item.name).Nodup := by
  cases p with
  | shorthand spacing =>
    rw [Property.translate]
    rcases translateShorthand_cases spacing value with
      ⟨token, -, h⟩ | h | ⟨sides, items, -, hlength, h, hitems⟩
    · rw [h]
      exact nodup_names_ofValue? _ _
    · rw [h]
      exact List.nodup_nil
    · rw [h, Translation.items, map_name_of_forall₂ hlength hitems]
      cases spacing <;> decide
  | extent e =>
    rw [Property.translate, translateExtent]
    split
    · have hnames : [itemName e.attributeName, itemName "layout_weight".toList].Nodup := by
        cases e <;> decide
      exact hnames
    · exact nodup_names_ofValue? _ _
  | _ =>
    rw [Property.translate]
    exact nodup_names_ofValue? _ _

/-- Commenting an item out leaves its name. -/
theorem name_markUnresolved (i : Item) : (markUnresolved i).name = i.name := by
  rw [markUnresolved]
  split <;> rfl

/-- The items of a declaration have different names. -/
theorem nodup_names_translate (name value : Text) :
    ((CssResources.translate name value).items.map Item.name).Nodup := by
  rw [CssResources.translate]
  cases Property.ofName? name with
  | none => exact List.nodup_nil
  | some p =>
    have hname : Item.name ∘ markUnresolved = Item.name := funext name_markUnresolved
    dsimp only
    rw [Translation.items_map, List.map_map, hname]
    exact p.nodup_names_translate _

end CssResources
