import CssResources.Proofs.Property.Characters
import CssResources.Proofs.Value.Markers
import Mathlib.Data.List.Infix

/-!
# What is left of a value without its markers

The markers of a value are erased in one reading, and then one more at the end. **A marker may be
left**: two halves of one come together where a marker between them was erased, as in
`4px  !important!important 8px`, and a marker at the end may stand behind another one, as in
`red!important!important`. None is left of a value whose markers come apart
(`CssResources.MarkersComeApart`):

| what could be left | why it is not | lemma |
|---|---|---|
| a marker with a space in front | nothing goes on where one was erased | `MarkersEnd.not_isInfix_erase` |
| a marker at the end | the last two did not follow each other before | `MarkersEnd.hasMarkerPair_of_erase` |

A value is left alone by a second stripping exactly if the first one left no marker
(`CssResources.stripImportant_eq_self_iff`).
-/

namespace CssResources

variable {value t : Text}

/-! ### Values that stay as they are -/

section Erase

variable {pattern : Text}

@[simp] theorem erase_nil (pattern : Text) : erase pattern [] = [] := eraseFrom_nil pattern 0

theorem erase_sublist (pattern t : Text) : (erase pattern t).Sublist t :=
  eraseFrom_sublist pattern 0 t

/-- **A text stays as it is exactly if the pattern does not occur in it.** -/
theorem erase_eq_self_iff (hne : pattern ≠ []) : erase pattern t = t ↔ ¬pattern <:+: t := by
  refine ⟨fun h => ?_, erase_of_not_isInfix⟩
  induction t using erase_induction hne with
  | nil => rwa [List.infix_nil]
  | found t _ =>
    -- the text would be longer than what is left of it
    have hlength := congrArg List.length h
    rw [erase_append hne, List.length_append] at hlength
    have hle := (erase_sublist pattern t).length_le
    have hpos := List.length_pos_iff.mpr hne
    omega
  | other c t hprefix ih =>
    rw [erase_cons_of_not_isPrefixOf hprefix, List.cons.injEq] at h
    rw [List.infix_cons_iff, not_or, ← List.isPrefixOf_iff_prefix]
    exact ⟨Bool.eq_false_iff.mp hprefix, ih h.2⟩

end Erase

theorem spacedMarker_ne_nil : spacedMarker ≠ [] := List.cons_ne_nil _ _

/-- **No marker of the value is to be stripped**: none has a space in front of it, and none stands
at the end. -/
structure IsUnmarked (value : Text) : Prop where
  /-- No marker has a space in front of it. -/
  not_spaced : ¬spacedMarker <:+: value
  /-- No marker stands at the end. -/
  not_last : ¬importantMarker <:+ value

/-- A value without markers has no blanks at its ends. -/
theorem trim_stripImportant (value : Text) :
    trim (stripImportant value) = stripImportant value := by
  have htrimmed := trim_trim (erase spacedMarker value)
  rw [stripImportant]
  split
  · rename_i rest hrest
    rw [beforeEnd?_eq_some_iff] at hrest
    rw [hrest, trim_eq_self_iff] at htrimmed
    refine trim_eq_self_iff.mpr ⟨fun c hc => htrimmed.1 c ?_, getLast?_trimEnd rest⟩
    obtain ⟨stop, hstop⟩ := trimEnd_isPrefix rest
    rw [← hstop, List.append_assoc, List.head?_append, Option.mem_def.mp hc]
    rfl
  · exact htrimmed

theorem stripImportant_sublist_trim (value : Text) :
    (stripImportant value).Sublist (trim (erase spacedMarker value)) := by
  rw [stripImportant]
  split
  · rename_i rest hrest
    rw [beforeEnd?_eq_some_iff.mp hrest]
    exact (trimEnd_isPrefix rest).sublist.trans (List.sublist_append_left _ _)
  · exact List.Sublist.refl _

/-- **A value stays as it is exactly if it is trimmed and has no marker to strip.** -/
theorem stripImportant_eq_self_iff :
    stripImportant value = value ↔ trim value = value ∧ IsUnmarked value := by
  constructor
  · intro h
    have htrim : trim value = value := h ▸ trim_stripImportant value
    -- each step takes something away or nothing, so none took anything away
    have hsublist := stripImportant_sublist_trim value
    rw [h] at hsublist
    have herase : erase spacedMarker value = value :=
      (erase_sublist spacedMarker value).antisymm (hsublist.trans (trim_sublist _))
    refine ⟨htrim, (erase_eq_self_iff spacedMarker_ne_nil).mp herase, ?_⟩
    rw [← beforeEnd?_eq_none_iff]
    rw [stripImportant, herase, htrim] at h
    split at h
    · rename_i rest hrest
      have hlength := congrArg List.length (beforeEnd?_eq_some_iff.mp hrest)
      have hle := (trimEnd_isPrefix rest).length_le
      have hpos := List.length_pos_iff.mpr importantMarker_ne_nil
      rw [h, List.length_append] at *
      omega
    · assumption
  · rintro ⟨htrim, hspaced, hlast⟩
    rw [stripImportant, erase_of_not_isInfix hspaced, htrim, beforeEnd?_eq_none_iff.mpr hlast]

/-! ### Markers that come apart -/

/-- **Nothing goes on where a marker is erased**: no character of the marker stands right behind
one with a space in front of it. -/
def MarkersEnd (t : Text) : Prop :=
  ∀ rest, spacedMarker ++ rest <:+ t → ∀ c ∈ rest.head?, c ∉ importantMarker

/-- **A marker follows another one**, with nothing or blanks in between, and has no space in front
of it. -/
def HasMarkerPair (t : Text) : Prop :=
  ∃ blanks, isAllBlank blanks = true ∧ blanks.getLast? ≠ some ' ' ∧
    importantMarker ++ (blanks ++ importantMarker) <:+: t

/-- **The markers of a value come apart.** -/
structure MarkersComeApart (value : Text) : Prop where
  /-- Nothing goes on where a marker is erased. -/
  ends : MarkersEnd value
  /-- A marker that follows another one has a space in front of it. -/
  not_pair : ¬HasMarkerPair value

theorem HasMarkerPair.of_isInfix {s : Text} (h : HasMarkerPair s) (hs : s <:+: t) :
    HasMarkerPair t := by
  obtain ⟨blanks, hblanks, hlast, hfound⟩ := h
  exact ⟨blanks, hblanks, hlast, hfound.trans hs⟩

namespace MarkersEnd

theorem of_suffix {s : Text} (h : MarkersEnd t) (hs : s <:+ t) : MarkersEnd s :=
  fun rest hrest => h rest (hrest.trans hs)

/-- A character of a marker comes first after erasing only if it came first before. -/
theorem exists_eq_cons {c : Char} {s : Text} (h : MarkersEnd t) (hc : c ∈ importantMarker)
    (ht : erase spacedMarker t = c :: s) : ∃ u, t = c :: u ∧ erase spacedMarker u = s := by
  induction t using erase_induction spacedMarker_ne_nil with
  | nil => cases ht
  | found t ih =>
    rw [erase_append spacedMarker_ne_nil] at ht
    obtain ⟨u, rfl, -⟩ := ih (h.of_suffix (List.suffix_append _ _)) ht
    exact absurd hc (h (c :: u) List.suffix_rfl c rfl)
  | other d t hprefix _ =>
    rw [erase_cons_of_not_isPrefixOf hprefix, List.cons.injEq] at ht
    obtain ⟨rfl, ht⟩ := ht
    exact ⟨t, rfl, ht⟩

/-- **A marker comes first after erasing only if it came first before.** -/
theorem exists_eq_append {s w : Text} (h : MarkersEnd t) (hs : s ⊆ importantMarker)
    (ht : erase spacedMarker t = s ++ w) : ∃ u, t = s ++ u ∧ erase spacedMarker u = w := by
  induction s generalizing t with
  | nil => exact ⟨t, rfl, ht⟩
  | cons c s ih =>
    obtain ⟨hc, hs⟩ := List.cons_subset.mp hs
    obtain ⟨t', rfl, ht'⟩ := h.exists_eq_cons hc ht
    obtain ⟨u, rfl, hu⟩ := ih (h.of_suffix (List.suffix_cons c t')) hs ht'
    exact ⟨u, rfl, hu⟩

/-- **No marker with a space in front of it is left.** -/
theorem not_isInfix_erase (h : MarkersEnd t) : ¬spacedMarker <:+: erase spacedMarker t := by
  induction t using erase_induction spacedMarker_ne_nil with
  | nil => exact fun hfound => absurd (List.infix_nil.mp hfound) spacedMarker_ne_nil
  | found t ih =>
    rw [erase_append spacedMarker_ne_nil]
    exact ih (h.of_suffix (List.suffix_append _ _))
  | other c t hprefix ih =>
    have hrest := h.of_suffix (List.suffix_cons c t)
    rw [erase_cons_of_not_isPrefixOf hprefix, List.infix_cons_iff, not_or]
    refine ⟨fun hfirst => ?_, ih hrest⟩
    obtain ⟨rfl, w, hw⟩ := List.cons_prefix_cons.mp hfirst
    obtain ⟨u, rfl, -⟩ := hrest.exists_eq_append (List.Subset.refl _) hw.symm
    exact Bool.eq_false_iff.mp hprefix (List.isPrefixOf_iff_prefix.mpr (List.prefix_append _ u))

/-- Blanks and a marker come first after erasing, when the last blanks before were `read`: they came
first before, or the marker followed one that was erased among the blanks. -/
theorem blanks_first_or_hasMarkerPair (h : MarkersEnd t) {blanks w : Text} (read : Text)
    (hblanks : isAllBlank blanks = true) (hlast : (read ++ blanks).getLast? ≠ some ' ')
    (ht : erase spacedMarker t = blanks ++ (importantMarker ++ w)) :
    (∃ first u, isAllBlank first = true ∧ (read ++ first).getLast? ≠ some ' ' ∧
      t = first ++ (importantMarker ++ u)) ∨ HasMarkerPair t := by
  induction t using erase_induction spacedMarker_ne_nil generalizing read blanks with
  | nil =>
    rw [erase_nil, eq_comm, List.append_eq_nil_iff, List.append_eq_nil_iff] at ht
    exact absurd ht.2.1 importantMarker_ne_nil
  | found t ih =>
    rw [erase_append spacedMarker_ne_nil] at ht
    have hlast' : ([] ++ blanks).getLast? ≠ some ' ' := by
      cases blanks with
      | nil => simp
      | cons b blanks => simpa [List.getLast?_append, List.getLast?_cons] using hlast
    refine .inr ?_
    rcases ih (h.of_suffix (List.suffix_append _ _)) [] hblanks hlast' ht with
      ⟨first, u, hfirst, hend, rfl⟩ | hpair
    · exact ⟨first, hfirst, hend, [' '], u, by simp⟩
    · exact hpair.of_isInfix (List.suffix_append _ _).isInfix
  | other c t hprefix ih =>
    have hrest := h.of_suffix (List.suffix_cons c t)
    cases blanks with
    | nil =>
      obtain ⟨u, hu, -⟩ := h.exists_eq_append (List.Subset.refl _) ht
      exact .inl ⟨[], u, rfl, hlast, hu⟩
    | cons b blanks =>
      rw [erase_cons_of_not_isPrefixOf hprefix, List.cons_append, List.cons.injEq] at ht
      obtain ⟨rfl, ht⟩ := ht
      rw [isAllBlank_cons, Bool.and_eq_true] at hblanks
      rw [List.append_cons] at hlast
      rcases ih hrest (read ++ [c]) hblanks.2 hlast ht with ⟨first, u, hfirst, hend, rfl⟩ | hpair
      · refine .inl ⟨c :: first, u, by simp [hblanks.1, hfirst], ?_, rfl⟩
        rwa [List.append_cons]
      · exact .inr (hpair.of_isInfix (List.suffix_cons c t).isInfix)

/-- **Erasing makes no marker follow another one.** -/
theorem hasMarkerPair_of_erase (h : MarkersEnd t) (ht : HasMarkerPair (erase spacedMarker t)) :
    HasMarkerPair t := by
  obtain ⟨blanks, hblanks, hlast, hfound⟩ := ht
  induction t using erase_induction spacedMarker_ne_nil with
  | nil =>
    rw [erase_nil, List.infix_nil, List.append_eq_nil_iff] at hfound
    exact absurd hfound.1 importantMarker_ne_nil
  | found t ih =>
    rw [erase_append spacedMarker_ne_nil] at hfound
    exact (ih (h.of_suffix (List.suffix_append _ _)) hfound).of_isInfix
      (List.suffix_append _ _).isInfix
  | other c t hprefix ih =>
    have hrest := h.of_suffix (List.suffix_cons c t)
    rw [erase_cons_of_not_isPrefixOf hprefix, List.infix_cons_iff] at hfound
    rcases hfound with ⟨w, hw⟩ | hfound
    · rw [← erase_cons_of_not_isPrefixOf hprefix, List.append_assoc, List.append_assoc] at hw
      obtain ⟨u, hu, hw⟩ := h.exists_eq_append (List.Subset.refl _) hw.symm
      have hsuffix : u <:+ c :: t := hu ▸ List.suffix_append _ u
      rcases (h.of_suffix hsuffix).blanks_first_or_hasMarkerPair [] hblanks hlast hw with
        ⟨first, v, hfirst, hend, rfl⟩ | hpair
      · exact ⟨first, hfirst, hend, [], v, by simp [hu]⟩
      · exact hpair.of_isInfix hsuffix.isInfix
    · exact (ih hrest hfound).of_isInfix (List.suffix_cons c t).isInfix

end MarkersEnd

/-! ### Values whose markers come apart -/

/-- A space in front of the marker at the end would be one of a marker with a space in front. -/
theorem hasMarkerPair_of_isSuffix {rest : Text}
    (hspaced : ¬spacedMarker <:+: rest ++ importantMarker)
    (hlast : importantMarker <:+ trimEnd rest) : HasMarkerPair (rest ++ importantMarker) := by
  obtain ⟨blanks, hblanks, hrest⟩ := exists_eq_trimEnd_append rest
  obtain ⟨start, hstart⟩ := hlast
  refine ⟨blanks, hblanks, fun hspace => hspaced ?_, start, [], ?_⟩
  · obtain ⟨blanks, rfl⟩ := List.getLast?_eq_some_iff.mp hspace
    rw [hrest]
    exact ⟨trimEnd rest ++ blanks, [], by simp⟩
  · rw [List.append_nil, ← List.append_assoc, ← List.append_assoc, hstart, ← hrest]

/-- **No marker is left of a value whose markers come apart.** -/
theorem MarkersComeApart.isUnmarked (h : MarkersComeApart value) :
    IsUnmarked (stripImportant value) := by
  have hinfix := trim_isInfix (erase spacedMarker value)
  have hspaced : ¬spacedMarker <:+: trim (erase spacedMarker value) := fun hfound =>
    h.ends.not_isInfix_erase (hfound.trans hinfix)
  have hpair : ¬HasMarkerPair (trim (erase spacedMarker value)) := fun hpair =>
    h.not_pair (h.ends.hasMarkerPair_of_erase (hpair.of_isInfix hinfix))
  rw [stripImportant]
  split
  · rename_i rest hrest
    rw [beforeEnd?_eq_some_iff.mp hrest] at hspaced hpair
    refine ⟨fun hfound => hspaced ?_, fun hlast => hpair (hasMarkerPair_of_isSuffix hspaced hlast)⟩
    exact (hfound.trans (trimEnd_isPrefix rest).isInfix).trans (List.prefix_append _ _).isInfix
  · rename_i hnone
    exact ⟨hspaced, beforeEnd?_eq_none_iff.mp hnone⟩

/-- What is stripped once more has no marker left exactly if nothing is left to strip. -/
theorem stripImportant_stripImportant_iff :
    stripImportant (stripImportant value) = stripImportant value ↔
      IsUnmarked (stripImportant value) := by
  rw [stripImportant_eq_self_iff, and_iff_right (trim_stripImportant value)]

/-! ### Looking at the markers -/

/-- The places of the markers are looked at one by one: what stands right behind one with a space in
front of it, and what stands between one and the next. -/
def looksApart (value : Text) : Bool :=
  value.tails.all fun s =>
    ((afterStart? spacedMarker s).all fun rest => rest.head?.all fun c => c ∉ importantMarker) &&
      (afterStart? importantMarker s).all fun rest =>
        !importantMarker.isPrefixOf (trimStart rest) ||
          (rest.takeWhile isBlank).getLast? == some ' '

theorem looksApart_iff :
    looksApart value = true ↔
      MarkersEnd value ∧
        ∀ rest, importantMarker ++ rest <:+ value → importantMarker <+: trimStart rest →
          (rest.takeWhile isBlank).getLast? = some ' ' := by
  simp only [looksApart, MarkersEnd, List.all_eq_true, List.mem_tails, Bool.and_eq_true,
    Option.all_eq_true, decide_eq_true_eq, afterStart?_eq_some_iff, Bool.or_eq_true,
    Bool.not_eq_true', Bool.eq_false_iff, ne_eq, List.isPrefixOf_iff_prefix, beq_iff_eq,
    ← imp_iff_not_or]
  constructor
  · intro h
    exact ⟨fun rest hrest => (h _ hrest).1 rest rfl, fun rest hrest => (h _ hrest).2 rest rfl⟩
  · rintro ⟨hends, hpair⟩ s hs
    exact ⟨fun rest hrest => hends rest (hrest ▸ hs), fun rest hrest => hpair rest (hrest ▸ hs)⟩

/-- The blanks between two markers are those behind the first. -/
theorem not_hasMarkerPair_iff :
    ¬HasMarkerPair value ↔
      ∀ rest, importantMarker ++ rest <:+ value → importantMarker <+: trimStart rest →
        (rest.takeWhile isBlank).getLast? = some ' ' := by
  constructor
  · rintro hpair rest ⟨start, rfl⟩ ⟨stop, hstop⟩
    by_contra hspace
    refine hpair ⟨rest.takeWhile isBlank, isAllBlank_takeWhile rest, hspace, start, stop, ?_⟩
    have hrest := takeWhile_append_trimStart rest
    rw [← hstop] at hrest
    simp only [List.append_assoc, hrest]
  · rintro hpair ⟨blanks, hblanks, hlast, start, stop, hvalue⟩
    have hstop : ∀ c ∈ (importantMarker ++ stop).head?, isBlank c = false := by
      intro c hc
      obtain rfl : '!' = c := Option.some.inj hc
      decide
    have hrun : ∀ c ∈ blanks, isBlank c = true := fun _ => isBlank_of_mem_isAllBlank hblanks
    have hspace := hpair (blanks ++ (importantMarker ++ stop)) ⟨start, by simpa using hvalue⟩
    rw [trimStart, takeWhile_append_stop hrun hstop, dropWhile_append_stop hrun hstop] at hspace
    exact hlast (hspace (List.prefix_append _ _))

/-- It can be decided if a value's markers come apart. -/
instance (value : Text) : Decidable (MarkersComeApart value) :=
  decidable_of_iff (looksApart value = true) <| by
    rw [looksApart_iff, ← not_hasMarkerPair_iff]
    exact ⟨fun h => ⟨h.1, h.2⟩, fun h => ⟨h.ends, h.not_pair⟩⟩

/-! ### The theorem -/

/-- **Stripping leaves no marker**, if the markers of the value come apart: none with a space in
front of it, and none at the end. So a value that was stripped stays as it is when it is stripped
again, and a declaration with it is translated as if nothing was stripped. -/
theorem stripImportant_leaves_no_marker (h : MarkersComeApart value) :
    ¬spacedMarker <:+: stripImportant value ∧
      ¬importantMarker <:+ stripImportant value ∧
      stripImportant (stripImportant value) = stripImportant value ∧
      ∀ name p, Property.ofName? name = some p →
        translate name (stripImportant value) =
          (p.translate (stripImportant value)).map markUnresolved := by
  have hunmarked := h.isUnmarked
  have hagain := stripImportant_stripImportant_iff.mpr hunmarked
  refine ⟨hunmarked.not_spaced, hunmarked.not_last, hagain, fun name p hp => ?_⟩
  rw [translate, hp]
  dsimp only
  rw [hagain]

/-- A value with two markers, of which the one at the end has no space in front. -/
def paddingValue : Text := "4px !important  8px!important".toList

theorem stripImportant_leaves_no_marker_padding :
    MarkersComeApart paddingValue ∧ stripImportant paddingValue = "4px  8px".toList ∧
      ¬spacedMarker <:+: stripImportant paddingValue ∧
      ¬importantMarker <:+ stripImportant paddingValue ∧
      stripImportant (stripImportant paddingValue) = stripImportant paddingValue := by
  have hvalue : MarkersComeApart paddingValue := by decide
  obtain ⟨hspaced, hlast, hagain, -⟩ := stripImportant_leaves_no_marker hvalue
  exact ⟨hvalue, by decide, hspaced, hlast, hagain⟩

/-- A value with a marker that two halves of another one stand around. -/
def halvesValue : Text := "4px  !important!important 8px".toList

/-- **A marker may be left where one was erased**, and it goes when the value is stripped again. -/
theorem stripImportant_halvesValue :
    stripImportant halvesValue = "4px !important 8px".toList ∧
      spacedMarker <:+: stripImportant halvesValue ∧
      stripImportant (stripImportant halvesValue) = "4px 8px".toList := by
  have hleft : stripImportant halvesValue = "4px !important 8px".toList := by decide
  rw [hleft]
  exact ⟨rfl, by decide, by decide⟩

end CssResources
