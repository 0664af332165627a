import CssResources.Proofs.Session.StyleWalk

/-!
# What becomes of a declaration

A declaration of a rule for styles is **taken** or **refused**, and never lost silently.
Taken, its items become those of its property in every style of the rule, and all else stays
(`CssResources.Session.Takes`). Refused, nothing changes but the reports, which name its line and
its property (`CssResources.Session.Refuses`).

| declaration | what becomes of it | what is reported, apart from its resolution |
|---|---|---|
| no counterpart, or no style to go to | nothing | nothing |
| a token that no attribute can take | refused | an unsupported value |
| no items | refused | an unsupported value, or a malformed shorthand |
| items | taken | an unresolved property, if one of the items is commented |

The fates of a value are told apart once, where it is converted
(`CssResources.Declaration.convert_cases`). The theorem is about any session, be it one that rules
lead to or not (`CssResources.Session.taken_xor_refused`).
-/

namespace CssResources

variable {options : Options}

/-! ### Reports -/

/-- The report is about a resolution: a cycle that was cut, or a property not expanded. -/
def Diagnostic.isOfResolution : Diagnostic → Bool
  | .variableCycle _ | .expansionLimit _ => true
  | _ => false

theorem Diagnostic.isOfResolution_of_mem {r : Resolution} {x : Diagnostic}
    (h : x ∈ r.diagnostics) : x.isOfResolution = true := by
  rcases List.mem_append.mp h with h | h <;> obtain ⟨name, -, rfl⟩ := List.mem_map.mp h <;> rfl

namespace Declaration

/-- The value of a declaration, resolved against the properties defined so far. -/
def resolution (table : VariableTable) (d : Declaration) : Resolution :=
  table.resolve (stripImportant d.value)

/-- The items that the resolved value of a declaration is translated to. -/
def itemsIn (table : VariableTable) (d : Declaration) : List Item :=
  (translate d.property (d.resolution table).value).items

/-- The report of a declaration that keeps a reference. -/
def unresolvedReport (d : Declaration) : Diagnostic :=
  .unresolvedVariable d.line d.property (stripImportant d.value)

/-- **The report refuses a declaration**, by its line, its property and its resolved value. -/
def IsRefusal (table : VariableTable) (d : Declaration) (x : Diagnostic) : Prop :=
  x = .unsupportedValue d.line d.property (d.resolution table).value ∨
    x = .malformedShorthand d.line d.property (d.resolution table).value

variable {table : VariableTable} {p : Property} {d : Declaration}

theorem isRefusal_rejection (table : VariableTable) (p : Property) (d : Declaration) :
    d.IsRefusal table (p.rejection d.line d.property (d.resolution table).value) := by
  rw [Property.rejection]
  split
  · exact .inr rfl
  · exact .inl rfl

theorem convert_of_hasUnsupportedToken (p : Property)
    (h : hasUnsupportedToken (d.resolution table).value = true) :
    d.convert table p = (none, (d.resolution table).diagnostics
      ++ [.unsupportedValue d.line d.property (d.resolution table).value]) :=
  if_pos h

theorem convert_of_nil (p : Property)
    (h : hasUnsupportedToken (d.resolution table).value = false) (hitems : d.itemsIn table = []) :
    d.convert table p = (none, (d.resolution table).diagnostics
      ++ [p.rejection d.line d.property (d.resolution table).value]) := by
  rw [itemsIn, resolution] at hitems
  rw [resolution] at h
  simp only [convert, h, hitems]
  rfl

theorem convert_of_cons (p : Property)
    (h : hasUnsupportedToken (d.resolution table).value = false) {i : Item} {is : List Item}
    (hitems : d.itemsIn table = i :: is) :
    d.convert table p = (some (i :: is), (d.resolution table).diagnostics
      ++ if (i :: is).any Item.commented then [d.unresolvedReport] else []) := by
  rw [itemsIn, resolution] at hitems
  rw [resolution] at h
  simp only [convert, h, hitems]
  rfl

/-- **The two fates of a declaration**: it has items, and is reported if one of them is commented;
or it has none, and is refused in one report. -/
theorem convert_cases (table : VariableTable) (p : Property) (d : Declaration) :
    (d.itemsIn table ≠ [] ∧
        d.convert table p = (some (d.itemsIn table), (d.resolution table).diagnostics
          ++ if (d.itemsIn table).any Item.commented then [d.unresolvedReport] else [])) ∨
      ∃ x, d.IsRefusal table x ∧
        d.convert table p = (none, (d.resolution table).diagnostics ++ [x]) := by
  cases htoken : hasUnsupportedToken (d.resolution table).value with
  | true => exact .inr ⟨_, .inl rfl, convert_of_hasUnsupportedToken p htoken⟩
  | false =>
    cases hitems : d.itemsIn table with
    | nil => exact .inr ⟨_, isRefusal_rejection table p d, convert_of_nil p htoken hitems⟩
    | cons i is => exact .inl ⟨List.cons_ne_nil i is, convert_of_cons p htoken hitems⟩

end Declaration

/-! ### Entries of styles -/

namespace StyleTable

/-- **The items that a style has for a property.** -/
def itemsOf? (styles : StyleTable) (name property : Text) : Option (List Item) :=
  (styles.get? name).bind (·.get? property)

/-- **Items given to styles are the entry of their property there**; all other entries stay. -/
theorem itemsOf?_write (styles : StyleTable) {names : List Text} (h : names.Nodup) (property : Text)
    (items : List Item) (name other : Text) :
    (styles.write names property items).itemsOf? name other =
      if name ∈ names ∧ other = property then some items else styles.itemsOf? name other := by
  rw [itemsOf?, get?_write styles h, itemsOf?]
  by_cases hname : name ∈ names
  · rw [if_pos hname, Option.bind_some, OrderedMap.get?_insert]
    by_cases hother : other = property
    · simp [hname, hother]
    · rw [if_neg (Ne.symm hother), if_neg (fun h => hother h.2)]
      cases styles.get? name <;> rfl
  · rw [if_neg hname, if_neg (fun h => hname h.1)]

end StyleTable

/-! ### Sessions before and after a declaration -/

namespace Session

variable {d : Declaration} {targets : List Text} {s s' : Session}

/-- **What a session reports on the way to another**, apart from resolutions. -/
def Reports (s s' : Session) (ds : List Diagnostic) : Prop :=
  ∃ reports, s'.diagnostics = s.diagnostics ++ reports ∧
    reports.filter (!·.isOfResolution) = ds

/-- What is reported on the way is certain. -/
theorem Reports.unique {ds es : List Diagnostic} (h : s.Reports s' ds) (h' : s.Reports s' es) :
    ds = es := by
  obtain ⟨reports, hreports, rfl⟩ := h
  obtain ⟨reports', hreports', rfl⟩ := h'
  rw [List.append_cancel_left (hreports.symm.trans hreports')]

/-- Reports of a resolution do not count. -/
theorem reports_report (s : Session) (r : Resolution) {ds : List Diagnostic}
    (h : ∀ x ∈ ds, x.isOfResolution = false) : s.Reports (s.report (r.diagnostics ++ ds)) ds := by
  refine ⟨r.diagnostics ++ ds, rfl, ?_⟩
  rw [List.filter_append, List.filter_eq_nil_iff.mpr, List.nil_append, List.filter_eq_self.mpr]
  · intro x hx
    simp [h x hx]
  · intro x hx
    simp [Diagnostic.isOfResolution_of_mem hx]

/-- **A declaration is taken**: it has items, which become the entry of its property in each of
these styles. No other entry changes, there is no other style than before, and no custom property
changes. The only report is that of a commented item, if there is one. -/
structure Takes (targets : List Text) (d : Declaration) (s s' : Session) : Prop where
  /-- The declaration has items. -/
  items : d.itemsIn s.table ≠ []
  /-- They are what each of the styles has for the property. -/
  written : ∀ name ∈ targets, s'.styles.itemsOf? name d.property = some (d.itemsIn s.table)
  /-- All other entries stay. -/
  frame : ∀ name property, ¬(name ∈ targets ∧ property = d.property) →
    s'.styles.itemsOf? name property = s.styles.itemsOf? name property
  /-- The styles are those that were there, in their order. -/
  keys : s'.styles.keys = s.styles.keys
  /-- The custom properties stay. -/
  table : s'.table = s.table
  /-- A commented item is reported, and nothing else. -/
  reports : s.Reports s'
    (if (d.itemsIn s.table).any Item.commented then [d.unresolvedReport] else [])

/-- **A declaration is refused**: nothing changes, and one report says so. -/
structure Refuses (d : Declaration) (s s' : Session) : Prop where
  /-- The styles stay. -/
  styles : s'.styles = s.styles
  /-- The custom properties stay. -/
  table : s'.table = s.table
  /-- The declaration is reported, and nothing else. -/
  reports : ∃ x, d.IsRefusal s.table x ∧ s.Reports s' [x]

/-- **A declaration is not both taken and refused**, as the reports differ. -/
theorem Takes.not_refuses (h : s.Takes targets d s') : ¬s.Refuses d s' := by
  intro hrefuses
  obtain ⟨x, hx, hreports⟩ := hrefuses.reports
  have hreport := h.reports.unique hreports
  split at hreport
  · obtain rfl := List.singleton_inj.mp hreport
    rcases hx with hx | hx <;> cases hx
  · cases hreport

/-! ### Taking in a declaration -/

theorem diagnostics_apply (s : Session) (targets : List Text) (p : Property) (d : Declaration) :
    (s.apply targets p d).diagnostics = s.diagnostics ++ (d.convert s.table p).2 := by
  rw [Session.apply.eq_1]
  split <;> rfl

/-- **A declaration with a counterpart is taken or refused**, in a session that has the styles. -/
theorem takes_or_refuses_apply (hnodup : targets.Nodup)
    (htargets : ∀ n ∈ targets, n ∈ s.styles.keys) (p : Property) (d : Declaration) :
    s.Takes targets d (s.apply targets p d) ∨ s.Refuses d (s.apply targets p d) := by
  rcases d.convert_cases s.table p with ⟨hitems, hconvert⟩ | ⟨x, hx, hconvert⟩
  · rw [apply_of_some targets hconvert]
    refine .inl ⟨hitems, fun name hname => ?_, fun name property hother => ?_, ?_, rfl, ?_⟩
    · exact (StyleTable.itemsOf?_write _ hnodup ..).trans (if_pos ⟨hname, rfl⟩)
    · exact (StyleTable.itemsOf?_write _ hnodup ..).trans (if_neg hother)
    · have hkeys : s.styles.keys.Nodup := s.styles.nodup
      rw [StyleTable.keys_write]
      exact eraseDups_append_of_nodup hkeys htargets
    · refine reports_report s (d.resolution s.table) fun x hx => ?_
      split at hx
      · obtain rfl := List.mem_singleton.mp hx
        rfl
      · cases hx
  · rw [apply_of_none targets hconvert]
    have hresolution : ∀ y ∈ [x], y.isOfResolution = false := by
      intro y hy
      obtain rfl := List.mem_singleton.mp hy
      rcases hx with rfl | rfl <;> rfl
    exact .inr ⟨rfl, rfl, x, hx, reports_report s _ hresolution⟩

/-- A declaration adds no style to those of its rule. -/
theorem keys_declare (hnodup : targets.Nodup) (htargets : ∀ n ∈ targets, n ∈ s.styles.keys)
    (d : Declaration) : (s.declare .styles targets d).styles.keys = s.styles.keys := by
  cases hd : d.customName? with
  | some name =>
    rw [Session.declare, hd]
    rfl
  | none =>
    cases hp : Property.ofName? d.property with
    | none => rw [declare_of_skipped _ hd (.inl hp)]
    | some p =>
      rcases eq_or_ne targets [] with hnil | hne
      · rw [declare_of_skipped _ hd (.inr hnil)]
      · rw [declare_of_ofName? _ hd hp hne]
        rcases takes_or_refuses_apply hnodup htargets p d with h | h
        · exact h.keys
        · rw [h.styles]

/-- **Within a rule** the styles are those from before it, and its own. -/
theorem keys_within (s : Session) (r : Rule) (ds : List Declaration) :
    (s.within options r ds).styles.keys = (s.styles.keys ++ r.targets options).eraseDups := by
  induction ds using List.reverseRecOn with
  | nil => exact StyleTable.keys_ensure s.styles _
  | append_singleton ds d ih =>
    have htargets : ∀ n ∈ r.targets options, n ∈ (s.within options r ds).styles.keys :=
      fun n hn => by
        rw [ih, List.mem_eraseDups]
        exact List.mem_append_right _ hn
    have hnodup : (r.targets options).Nodup := nodup_eraseDups _
    rw [within_concat, keys_declare hnodup htargets, ih]

/-! ### Reports stay -/

/-- **Reports are never taken back.** -/
theorem subset_diagnostics_declare (mode : Mode) (targets : List Text) (s : Session)
    (d : Declaration) : s.diagnostics ⊆ (s.declare mode targets d).diagnostics := by
  rw [Session.declare]
  split
  · rw [Session.define]
    split
    · exact List.subset_append_left _ _
    · exact List.Subset.refl _
  · split
    · exact List.Subset.refl _
    · split
      · rw [diagnostics_apply]
        exact List.subset_append_left _ _
      · exact List.Subset.refl _

theorem subset_diagnostics_foldl_declare (mode : Mode) (targets : List Text)
    (ds : List Declaration) (s : Session) :
    s.diagnostics ⊆ (ds.foldl (declare mode targets) s).diagnostics := by
  induction ds generalizing s with
  | nil => exact List.Subset.refl _
  | cons d ds ih => exact List.Subset.trans (subset_diagnostics_declare mode targets s d) (ih _)

theorem subset_diagnostics_rule (options : Options) (s : Session) (r : Rule) :
    s.diagnostics ⊆ (s.rule options r).diagnostics := by
  cases hmode : options.mode with
  | colors =>
    rw [Session.rule, hmode]
    exact subset_diagnostics_foldl_declare _ _ _ _
  | styles =>
    have hopen : s.diagnostics ⊆ (s.openRule options r).diagnostics := List.subset_append_left _ _
    rw [rule_eq_within hmode]
    exact List.Subset.trans hopen (subset_diagnostics_foldl_declare _ _ _ _)

theorem subset_diagnostics_rules (options : Options) (rs : List Rule) (s : Session) :
    s.diagnostics ⊆ (s.rules options rs).diagnostics := by
  induction rs generalizing s with
  | nil => exact List.Subset.refl _
  | cons r rs ih => exact List.Subset.trans (subset_diagnostics_rule options s r) (ih _)

end Session

/-! ### The theorem -/

/-- The rule has a selector with a style. -/
def Rule.IsAccepted (options : Options) (r : Rule) : Prop :=
  ∃ selector ∈ r.selectors, (options.styleName? selector).isSome = true

theorem Rule.isAccepted_iff {r : Rule} : r.IsAccepted options ↔ r.targets options ≠ [] := by
  constructor
  · rintro ⟨selector, hselector, hname⟩
    obtain ⟨name, hname⟩ := Option.isSome_iff_exists.mp hname
    exact List.ne_nil_of_mem
      (List.mem_eraseDups.mpr (List.mem_filterMap.mpr ⟨selector, hselector, hname⟩))
  · intro hne
    obtain ⟨name, hmem⟩ := List.exists_mem_of_ne_nil _ hne
    obtain ⟨selector, hselector, hname⟩ := List.mem_filterMap.mp (List.mem_eraseDups.mp hmem)
    exact ⟨selector, hselector, Option.isSome_iff_exists.mpr ⟨name, hname⟩⟩

namespace Session

/-- **No declaration is lost silently, and a failed one changes nothing.** A rule is taken in
declaration by declaration. One that is no custom property, has a counterpart, and goes to a style
is either taken or refused, in any session and after any declarations of its rule; any other that
is no custom property leaves the session as it is. -/
theorem taken_xor_refused (hmode : options.mode = .styles) (s : Session) {r : Rule}
    {before after : List Declaration} {d : Declaration} (hr : r.declarations = before ++ d :: after)
    (hd : d.customName? = none) :
    let s₀ := s.within options r before
    let s₁ := s.within options r (before ++ [d])
    s.rule options r = after.foldl (declare .styles (r.targets options)) s₁ ∧
      ((Property.ofName? d.property).isSome = true ∧ r.IsAccepted options →
        Xor (s₀.Takes (r.targets options) d s₁) (s₀.Refuses d s₁)) ∧
      (¬((Property.ofName? d.property).isSome = true ∧ r.IsAccepted options) → s₁ = s₀) := by
  intro s₀ s₁
  have hstep : s₁ = s₀.declare .styles (r.targets options) d := within_concat s r before d
  refine ⟨?_, fun ⟨hp, haccepted⟩ => ?_, fun hskipped => ?_⟩
  · rw [rule_eq_within hmode, hr, ← within_append, List.append_assoc]
    rfl
  · obtain ⟨p, hp⟩ := Option.isSome_iff_exists.mp hp
    have htargets : ∀ n ∈ r.targets options, n ∈ s₀.styles.keys := fun n hn => by
      rw [keys_within, List.mem_eraseDups]
      exact List.mem_append_right _ hn
    rw [hstep, declare_of_ofName? _ hd hp (Rule.isAccepted_iff.mp haccepted)]
    rcases takes_or_refuses_apply (nodup_eraseDups _) htargets p d with h | h
    · exact .inl ⟨h, h.not_refuses⟩
    · exact .inr ⟨h, fun htakes => htakes.not_refuses h⟩
  · rw [hstep]
    refine declare_of_skipped _ hd ?_
    by_contra hnot
    rw [not_or] at hnot
    exact hskipped ⟨Option.isSome_iff_ne_none.mpr hnot.1, Rule.isAccepted_iff.mpr hnot.2⟩

/-- A rule with a definition, a declaration that uses it, and one that is refused. -/
def chipRule : Rule where
  selectors := [".chip".toList, "a:hover".toList]
  declarations :=
    [⟨"--ink".toList, "#112233".toList, 2⟩, ⟨"color".toList, "var(--ink)".toList, 3⟩,
      ⟨"width".toList, "auto".toList, 4⟩]
  line := 1

theorem taken_xor_refused_chip :
    let options : Options := {}
    let first := chipRule.declarations.take 2
    let width : Declaration := ⟨"width".toList, "auto".toList, 4⟩
    let s := Session.start options
    (options.mode = .styles ∧ chipRule.declarations = first ++ [width] ∧
      width.customName? = none) ∧
      ((Property.ofName? width.property).isSome = true ∧ chipRule.IsAccepted options) ∧
      Xor ((s.within options chipRule first).Takes (chipRule.targets options) width
          (s.within options chipRule (first ++ [width])))
        ((s.within options chipRule first).Refuses width
          (s.within options chipRule (first ++ [width]))) := by
  intro options first width s
  have hmapped : (Property.ofName? width.property).isSome = true ∧ chipRule.IsAccepted options :=
    ⟨by decide, ".chip".toList, List.mem_cons_self .., by decide⟩
  have hdeclarations : chipRule.declarations = first ++ width :: [] := rfl
  exact ⟨⟨rfl, hdeclarations, rfl⟩, hmapped,
    (taken_xor_refused rfl s hdeclarations rfl).2.1 hmapped⟩

end Session

end CssResources
