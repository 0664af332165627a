import CssResources.Host

/-!
# Texts as bytes

A text is written to a file in UTF-8. The size that is given for it is the number of these
bytes (`CssResources.size_utf8Bytes`), and the bytes are read as the text that was written
(`CssResources.textOfUtf8?_utf8Bytes`).
-/

namespace CssResources

/-- **The size of a text is the number of its bytes.** -/
theorem size_utf8Bytes (t : Text) : (utf8Bytes t).size = utf8Size t := by
  change (String.ofList t).utf8ByteSize = utf8Size t
  induction t with
  | nil => rfl
  | cons c t ih =>
    have hsplit : String.ofList (c :: t) = String.singleton c ++ String.ofList t := by
      rw [String.singleton_eq_ofList, ← String.ofList_append, List.singleton_append]
    rw [hsplit, String.utf8ByteSize_append, String.utf8ByteSize_singleton, ih]
    rfl

/-- **The bytes of a text are read as the text.** -/
theorem textOfUtf8?_utf8Bytes (t : Text) : textOfUtf8? (utf8Bytes t) = some t := by
  have hvalid : (utf8Bytes t).IsValidUTF8 := (String.ofList t).isValidUTF8
  have hread : String.fromUTF8? (utf8Bytes t) = some (String.ofList t) := by
    rw [String.fromUTF8?, dif_pos hvalid]
    rfl
  rw [textOfUtf8?, hread, Option.map_some, String.toList_ofList]

end CssResources
