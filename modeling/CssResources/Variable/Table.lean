import CssResources.OrderedMap
import CssResources.Text.Basic

/-!
# Custom properties

A custom property is a name with a text for its value. The table of custom properties
holds them in the order of first definition; a later definition replaces the value and
the line, not the place.
-/

namespace CssResources

/-- **What a custom property is defined as.** -/
structure Definition where
  /-- The value. -/
  value : Text
  /-- The line of the definition; 0 for one that comes from outside the stylesheet. -/
  line : Nat
  deriving DecidableEq, Repr

/-- The name of a custom property without the two dashes in front, however often they
are repeated. -/
def bareName : Text → Text
  | '-' :: '-' :: t => bareName t
  | t => t

/-- **The custom properties in order of first definition**, by their names without the
two dashes. -/
abbrev VariableTable := OrderedMap Text Definition

namespace VariableTable

/-- Defines a custom property, or defines it anew. -/
def define (table : VariableTable) (name value : Text) (line : Nat) : VariableTable :=
  table.insert name ⟨value, line⟩

/-- The value of a custom property. -/
def value? (table : VariableTable) (name : Text) : Option Text :=
  (table.get? name).map Definition.value

/-- A property is found with the value it was defined with last. -/
theorem value?_define (table : VariableTable) (name other value : Text) (line : Nat) :
    (define table name value line).value? other =
      if name = other then some value else table.value? other := by
  simp only [value?, define, OrderedMap.get?_insert]
  split <;> rfl

end VariableTable

end CssResources
