import CssResources.Text.Erase

/-!
# The marker `!important`

A value may carry the marker `!important`, which has no meaning in a resource. It is
erased wherever a blank stands in front of it, and once more at the end of the value if
none does.
-/

namespace CssResources

/-- The marker. -/
def importantMarker : Text := "!important".toList

/-- **A value without its markers.** -/
def stripImportant (value : Text) : Text :=
  let stripped := trim (erase (' ' :: importantMarker) value)
  match beforeEnd? importantMarker stripped with
  | some rest => trimEnd rest
  | none => stripped

@[simp] theorem stripImportant_nil : stripImportant [] = [] := rfl

end CssResources
