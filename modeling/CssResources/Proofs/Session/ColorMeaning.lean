import CssResources.Proofs.OrderedMap
import CssResources.Session

/-!
# What a stylesheet means in colors

A session for colors has no use for selectors: all that counts is the row of definitions of
custom properties, the predefined ones and those of the rules. This file says what the
colors are from that row alone.

| notion | definition |
|---|---|
| the definitions in order | `CssResources.definitionsIn` |
| the last definition of a property, and those before it | `CssResources.lastDefinition?` |
| what a property comes to | `CssResources.resolvedAmong?` |
| its color | `CssResources.colorAmong?` |
| the report that it has none | `CssResources.notAColorAmong?` |

A property is resolved against the definitions that come **before its last one**. A
definition that comes later is of no use to it, and neither is its own: a property that is
defined anew by means of itself refers to what it was.
-/

namespace CssResources

/-! ### Definitions in order -/

/-- The custom property that a declaration defines, with its value and its line. -/
def Declaration.defines? (d : Declaration) : Option (Text × Definition) :=
  d.customName?.map fun name => (name, ⟨stripImportant d.value, d.line⟩)

/-- **The definitions in order**: the predefined ones in the order of their names, then those
of the declarations in source order, whatever rule they stand in. -/
def definitionsIn (options : Options) (rs : List Rule) : List (Text × Definition) :=
  (options.predefined.entries.map fun e => (bareName e.1, ⟨e.2, 0⟩))
    ++ (rs.flatMap Rule.declarations).filterMap Declaration.defines?

/-- The value that definitions leave a property with. -/
def valueAfter? (defs : List (Text × Definition)) (name : Text) : Option Text :=
  (lastValue? name defs).map Definition.value

/-- **The last definition of a property**, and the definitions that come before it. -/
def lastDefinition? (name : Text) :
    List (Text × Definition) → Option (List (Text × Definition) × Definition)
  | [] => none
  | e :: defs =>
    match lastDefinition? name defs with
    | some p => some (e :: p.1, p.2)
    | none => if e.1 = name then some ([], e.2) else none

/-- A definition that comes last is the last one of its property, and of no other. -/
theorem lastDefinition?_concat (name : Text) (defs : List (Text × Definition))
    (e : Text × Definition) :
    lastDefinition? name (defs ++ [e]) =
      if e.1 = name then some (defs, e.2) else lastDefinition? name defs := by
  induction defs with
  | nil => rfl
  | cons e' defs ih =>
    rw [List.cons_append, lastDefinition?, ih]
    by_cases h : e.1 = name
    · simp only [if_pos h]
    · simp only [if_neg h, lastDefinition?]

/-- A definition is the last one of its property if the property is in none of those after it. -/
theorem lastDefinition?_append_cons (before : List (Text × Definition)) (e : Text × Definition)
    {after : List (Text × Definition)} (h : e.1 ∉ after.map Prod.fst) :
    lastDefinition? e.1 (before ++ e :: after) = some (before, e.2) := by
  induction after using List.reverseRecOn with
  | nil => rw [lastDefinition?_concat, if_pos rfl]
  | append_singleton after e' ih =>
    rw [List.map_append, List.mem_append, not_or, List.map_singleton, List.mem_singleton] at h
    rw [← List.cons_append, ← List.append_assoc, lastDefinition?_concat, if_neg (Ne.symm h.2),
      ih h.1]

/-- The last definition of a property is one of the definitions, behind those before it. -/
theorem exists_eq_append_of_lastDefinition? {name : Text} {defs : List (Text × Definition)}
    {p : List (Text × Definition) × Definition} (h : lastDefinition? name defs = some p) :
    ∃ after, defs = p.1 ++ (name, p.2) :: after := by
  induction defs generalizing p with
  | nil => simp [lastDefinition?] at h
  | cons e defs ih =>
    rw [lastDefinition?] at h
    split at h
    · rename_i q hq
      obtain rfl := Option.some.inj h
      obtain ⟨after, hafter⟩ := ih hq
      exact ⟨after, by rw [List.cons_append, ← hafter]⟩
    · split at h
      · rename_i hname
        obtain rfl := Option.some.inj h
        exact ⟨defs, by rw [← hname]; rfl⟩
      · simp at h

/-! ### Colors -/

/-- **What a property comes to**: its last definition, resolved against those before it. -/
def resolvedAmong? (defs : List (Text × Definition)) (name : Text) : Option Text :=
  (lastDefinition? name defs).map fun p => (resolve (valueAfter? p.1) defaultLimit p.2.value).value

/-- The color of a resolved value: commented out, without pairs of dashes, if it keeps a
reference, else the literal that it reads as, if it reads as one. -/
def colorOf? (name value : Text) : Option ColorResource :=
  if hasReference value then
    some { name := resourceName name, value := eraseDashes value, commented := true }
  else (colorLiteral? value).map fun literal => { name := resourceName name, value := literal }

/-- **The color of a property**, if it has one. -/
def colorAmong? (defs : List (Text × Definition)) (name : Text) : Option ColorResource :=
  (resolvedAmong? defs name).bind (colorOf? name)

/-- **The report of a property that has no color.** -/
def notAColorAmong? (defs : List (Text × Definition)) (name : Text) : Option Diagnostic :=
  (resolvedAmong? defs name).bind fun value =>
    if (colorOf? name value).isSome then none else some (.notAColor name value)

/-- The diagnostic says that a property has no color. -/
def Diagnostic.isNotAColor : Diagnostic → Bool
  | notAColor .. => true
  | _ => false

end CssResources
