import CssResources.Text.Uppercase

/-!
# Resource names

The names of Android resources are made of ASCII letters, digits, underscores and dots.
-/

namespace CssResources

/-- A character that the name of a resource may have. -/
def isResourceChar (c : Char) : Bool := c.isAlphanum || c == '_' || c == '.'

/-- **The resource name of a name**: every character that it may not have becomes an
underscore. -/
def resourceName (name : Text) : Text := name.map fun c => if isResourceChar c then c else '_'

/-- A resource name has as many characters as the name it is made from. -/
@[simp] theorem length_resourceName (name : Text) :
    (resourceName name).length = name.length := by
  simp [resourceName]

/-- **A resource name has no other characters.** -/
theorem isResourceChar_of_mem_resourceName {name : Text} {c : Char}
    (h : c ∈ resourceName name) : isResourceChar c = true := by
  obtain ⟨d, -, rfl⟩ := List.mem_map.mp h
  split
  · assumption
  · decide

end CssResources
