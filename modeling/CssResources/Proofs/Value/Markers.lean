import CssResources.Proofs.Text.Blank
import CssResources.Proofs.Text.Parts
import CssResources.Session

/-!
# Tokens and markers

A value is looked through for tokens that no attribute can take, and only then loses its markers.
If each marker is a word of its own (`CssResources.MarkersStandApart`), **erasing the markers makes
no such token**, so none is overlooked
(`CssResources.hasUnsupportedToken_of_stripImportant`). Otherwise it may: `auto!important` is one
token before, and `auto` is another one after.

| what goes | why it makes no such token | lemma |
|---|---|---|
| a marker and its blank | the token before it ends anyway | `CssResources.meetsUnsupported_of_erase` |
| blanks at the ends | they are in no token | `CssResources.hasUnsupportedToken_of_trim` |
| a marker at the end | it still is a word | `CssResources.MarkersStandApart.getLast?_of_trim` |

Inside a parenthesis a token does not end at a blank. It is settled there by what stands before the
parenthesis (`CssResources.isUnsupportedToken_append`), and no marker does.
-/

namespace CssResources

/-! ### Erasing, one occurrence at a time -/

section Erase

variable {pattern : Text}

theorem erase_append (hne : pattern ≠ []) (t : Text) :
    erase pattern (pattern ++ t) = erase pattern t := by
  have hskip : ∀ s : Text, eraseFrom pattern s.length (s ++ t) = eraseFrom pattern 0 t := by
    intro s
    induction s with
    | nil => rfl
    | cons c s ih => exact ih
  obtain ⟨c, lead, hpattern⟩ := List.exists_cons_of_ne_nil hne
  have hprefix : pattern.isPrefixOf (c :: (lead ++ t)) = true := by
    rw [List.isPrefixOf_iff_prefix, ← List.cons_append, ← hpattern]
    exact List.prefix_append _ _
  have hlength : pattern.length - 1 = lead.length := by
    rw [hpattern]
    rfl
  rw [show pattern ++ t = c :: (lead ++ t) by rw [hpattern, List.cons_append],
    erase_cons_of_isPrefixOf hprefix, hlength, hskip, erase]

/-- **Induction along the occurrences** that are erased. -/
theorem erase_induction {P : Text → Prop} (hne : pattern ≠ []) (nil : P [])
    (found : ∀ t, P t → P (pattern ++ t))
    (other : ∀ c t, pattern.isPrefixOf (c :: t) = false → P t → P (c :: t)) (t : Text) : P t := by
  induction hlength : t.length using Nat.strong_induction_on generalizing t with
  | _ n ih =>
    subst hlength
    cases t with
    | nil => exact nil
    | cons c t =>
      cases hprefix : pattern.isPrefixOf (c :: t) with
      | false => exact other c t hprefix (ih _ (by simp) t rfl)
      | true =>
        obtain ⟨rest, hrest⟩ := List.isPrefixOf_iff_prefix.mp hprefix
        have hshorter : rest.length < (c :: t).length := by
          rw [← hrest, List.length_append]
          exact Nat.lt_add_of_pos_left (List.length_pos_iff.mpr hne)
        rw [← hrest]
        exact found rest (ih _ hshorter rest rfl)

/-- **Nothing is erased from a text in which the pattern does not occur.** -/
theorem erase_of_not_isInfix {t : Text} (h : ¬pattern <:+: t) : erase pattern t = t := by
  induction t with
  | nil => exact eraseFrom_nil pattern 0
  | cons c t ih =>
    rw [List.infix_cons_iff, not_or] at h
    have hprefix : pattern.isPrefixOf (c :: t) = false :=
      Bool.eq_false_iff.mpr fun hfound => h.1 (List.isPrefixOf_iff_prefix.mp hfound)
    rw [erase_cons_of_not_isPrefixOf hprefix, ih h.2]

/-- A character stays that the pattern does not have. -/
theorem mem_erase_of_mem {t : Text} {c : Char} (hne : pattern ≠ []) (hc : c ∉ pattern) (h : c ∈ t) :
    c ∈ erase pattern t := by
  induction t using erase_induction hne with
  | nil => exact absurd h List.not_mem_nil
  | found t ih =>
    rw [erase_append hne]
    exact ih ((List.mem_append.mp h).resolve_left hc)
  | other d t hprefix ih =>
    rw [erase_cons_of_not_isPrefixOf hprefix]
    rcases List.mem_cons.mp h with rfl | h
    · exact List.mem_cons_self ..
    · exact List.mem_cons_of_mem d (ih h)

end Erase

/-- **A value without a marker only loses its blanks.** -/
theorem stripImportant_of_not_isInfix {value : Text} (h : ¬importantMarker <:+: value) :
    stripImportant value = trim value := by
  have hspaced : ¬(' ' :: importantMarker <:+: value) := fun hfound =>
    h ((List.suffix_cons ' ' importantMarker).isInfix.trans hfound)
  have hend : beforeEnd? importantMarker (trim value) = none :=
    beforeEnd?_eq_none_iff.mpr fun hlast => h (hlast.isInfix.trans (trim_isInfix value))
  rw [stripImportant, erase_of_not_isInfix hspaced, hend]

/-- **A character stays that is neither blank nor of the marker.** -/
theorem mem_stripImportant_of_mem {value : Text} {c : Char} (hblank : isBlank c = false)
    (hc : c ∉ importantMarker) (h : c ∈ value) : c ∈ stripImportant value := by
  have hspaced : c ∉ ' ' :: importantMarker := by
    rintro (_ | ⟨_, hmem⟩)
    · exact absurd hblank (by decide)
    · exact hc hmem
  have hstripped : c ∈ trim (erase (' ' :: importantMarker) value) := by
    by_contra hnot
    exact not_mem_of_not_mem_trim hblank hnot
      (mem_erase_of_mem (List.cons_ne_nil _ _) hspaced h)
  rw [stripImportant]
  split
  · rename_i rest hrest
    rw [beforeEnd?_eq_some_iff.mp hrest] at hstripped
    obtain ⟨blanks, hblanks, hend⟩ := exists_eq_trimEnd_append rest
    have hmem := (List.mem_append.mp hstripped).resolve_right hc
    rw [hend] at hmem
    exact (List.mem_append.mp hmem).resolve_right (not_mem_of_isAllBlank hblanks hblank)
  · exact hstripped

/-- **A value without its markers is empty or not blank.** -/
theorem stripImportant_eq_nil_of_isAllBlank {value : Text}
    (h : isAllBlank (stripImportant value) = true) : stripImportant value = [] := by
  rw [stripImportant] at h ⊢
  split at h
  · exact trimEnd_eq_nil_of_isAllBlank h
  · exact trimEnd_eq_nil_of_isAllBlank h

/-! ### Tokens that no attribute can take -/

/-- **A token with a parenthesis is settled** by what it is up to there. -/
theorem isUnsupportedToken_append {u : Text} (h : '(' ∈ u) (w : Text) :
    isUnsupportedToken (u ++ w) = isUnsupportedToken u := by
  have hlower : '(' ∈ lowerAscii u := List.mem_map.mpr ⟨'(', h, rfl⟩
  have hword : ∀ word : Text, '(' ∉ word → ∀ v, (lowerAscii u ++ v == word) = false := by
    intro word hnot v
    refine beq_eq_false_iff_ne.mpr fun heq => hnot ?_
    rw [← heq]
    exact List.mem_append_left v hlower
  have hnil : ∀ word : Text, '(' ∉ word → (lowerAscii u == word) = false := fun word hnot => by
    simpa using hword word hnot []
  have hcalc : (afterStart? "calc(".toList (lowerAscii u ++ lowerAscii w)).isSome =
      (afterStart? "calc(".toList (lowerAscii u)).isSome := by
    have hlead : '(' ∉ "calc".toList := by decide
    exact isSome_afterStart?_append hlead hlower _
  have happend : lowerAscii (u ++ w) = lowerAscii u ++ lowerAscii w := List.map_append
  simp only [isUnsupportedToken]
  rw [happend, hcalc, hword _ (by decide), hword _ (by decide), hnil _ (by decide),
    hnil _ (by decide)]

/-- A token that no attribute can take is met, when a part of a token was read and parentheses are
open. -/
def meetsUnsupported : Text → Nat → Text → Bool
  | read, _, [] => isUnsupportedToken read
  | read, depth, c :: t =>
    if isBlank c && depth == 0 then isUnsupportedToken read || meetsUnsupported [] 0 t
    else meetsUnsupported (read ++ [c]) (depthAfter depth c) t

theorem meetsUnsupported_eq_any (read : Text) (depth : Nat) (t : Text) :
    meetsUnsupported read depth t =
      (read.foldr consHead (tokenParts depth t)).any isUnsupportedToken := by
  induction t generalizing read depth with
  | nil =>
    rw [tokenParts_nil, foldr_consHead, List.append_nil]
    exact (Bool.or_false _).symm
  | cons c t ih =>
    rw [meetsUnsupported, tokenParts]
    split
    · rw [foldr_consHead, List.append_nil, List.any_cons, ih, List.foldr_nil]
    · rw [ih, List.foldr_append, List.foldr_cons, List.foldr_nil]

theorem hasUnsupportedToken_eq (value : Text) :
    hasUnsupportedToken value = meetsUnsupported [] 0 value := by
  rw [meetsUnsupported_eq_any, hasUnsupportedToken, tokens, List.any_filter, List.foldr_nil]
  refine congrArg (List.any _) (funext fun token => ?_)
  cases token <;> rfl

section Reading

variable {read : Text} {depth : Nat} {t : Text}

/-- A blank outside parentheses ends a token. -/
theorem meetsUnsupported_blank (read : Text) {c : Char} (hc : isBlank c = true) (t : Text) :
    meetsUnsupported read 0 (c :: t) =
      (isUnsupportedToken read || meetsUnsupported [] 0 t) :=
  if_pos (by rw [hc]; rfl)

/-- Other characters belong to the token. -/
theorem meetsUnsupported_cons (read : Text) {c : Char} (hc : isBlank c = false ∨ depth ≠ 0)
    (t : Text) :
    meetsUnsupported read depth (c :: t) =
      meetsUnsupported (read ++ [c]) (depthAfter depth c) t := by
  rw [meetsUnsupported, if_neg]
  rcases hc with hc | hc <;> simp [hc]

/-- What holds no parentheses belongs to the token, if it holds no blanks or these do not count. -/
theorem meetsUnsupported_append {w : Text}
    (hw : ∀ c ∈ w, c ≠ '(' ∧ c ≠ ')' ∧ (isBlank c = false ∨ depth ≠ 0)) (read t : Text) :
    meetsUnsupported read depth (w ++ t) = meetsUnsupported (read ++ w) depth t := by
  induction w generalizing read with
  | nil => rw [List.nil_append, List.append_nil]
  | cons c w ih =>
    obtain ⟨hopen, hclose, hblank⟩ := hw c (List.mem_cons_self ..)
    have hdepth : depthAfter depth c = depth := by rw [depthAfter, if_neg hopen, if_neg hclose]
    rw [List.cons_append, meetsUnsupported_cons read hblank, hdepth,
      ih fun c hc => hw c (List.mem_cons_of_mem _ hc), List.append_assoc, List.singleton_append]

/-- After a parenthesis it does not matter how the token goes on. -/
theorem meetsUnsupported_append_read (h : '(' ∈ read) (w : Text) (depth : Nat) (t : Text) :
    meetsUnsupported (read ++ w) depth t = meetsUnsupported read depth t := by
  induction t generalizing read w depth with
  | nil => exact isUnsupportedToken_append h w
  | cons c t ih =>
    rw [meetsUnsupported, meetsUnsupported, isUnsupportedToken_append h]
    split
    · rfl
    · rw [List.append_assoc, ih h, ih h]

/-- A token that no attribute can take stays one after its parenthesis. -/
theorem meetsUnsupported_of_isUnsupportedToken (h : '(' ∈ read)
    (hread : isUnsupportedToken read = true) (depth : Nat) (t : Text) :
    meetsUnsupported read depth t = true := by
  induction t generalizing depth with
  | nil => exact hread
  | cons c t ih =>
    rw [meetsUnsupported, meetsUnsupported_append_read h, ih, hread, Bool.true_or, ite_self]

theorem depthAfter_eq_zero_or {c : Char} (h : depth = 0 ∨ '(' ∈ read) :
    depthAfter depth c = 0 ∨ '(' ∈ read ++ [c] := by
  rw [depthAfter]
  split
  · rename_i hc
    exact .inr (by simp [hc])
  · rcases h with rfl | h
    · exact .inl (by simp)
    · exact .inr (List.mem_append_left _ h)

/-- **What follows after a blank takes no token away.** -/
theorem meetsUnsupported_append_blank {y : Text} (hopen : depth = 0 ∨ '(' ∈ read)
    (hy : ∀ c ∈ y.head?, isBlank c = true) (h : meetsUnsupported read depth t = true) :
    meetsUnsupported read depth (t ++ y) = true := by
  induction t generalizing read depth with
  | nil =>
    rcases hopen with rfl | hopen
    · cases y with
      | nil => exact h
      | cons c y =>
        rw [List.nil_append, meetsUnsupported_blank read (hy c rfl), Bool.or_eq_true]
        exact .inl h
    · exact meetsUnsupported_of_isUnsupportedToken hopen h depth _
  | cons c t ih =>
    rw [List.cons_append, meetsUnsupported]
    rw [meetsUnsupported] at h
    split at h
    · rename_i hc
      rw [if_pos hc, Bool.or_eq_true]
      exact (Bool.or_eq_true _ _ ▸ h).imp_right (ih (.inl rfl))
    · rename_i hc
      rw [if_neg hc]
      exact ih (depthAfter_eq_zero_or hopen) h

end Reading

/-! ### Blanks at the ends -/

theorem isBlank_of_mem_head? {blanks : Text} (h : isAllBlank blanks = true) :
    ∀ c ∈ blanks.head?, isBlank c = true :=
  fun _ hc => isBlank_of_mem_isAllBlank h (List.mem_of_mem_head? hc)

theorem hasUnsupportedToken_append {t y : Text} (hy : ∀ c ∈ y.head?, isBlank c = true)
    (h : hasUnsupportedToken t = true) : hasUnsupportedToken (t ++ y) = true := by
  rw [hasUnsupportedToken_eq] at h ⊢
  exact meetsUnsupported_append_blank (.inl rfl) hy h

theorem hasUnsupportedToken_blank_append {start : Text} (hstart : isAllBlank start = true)
    (t : Text) : hasUnsupportedToken (start ++ t) = hasUnsupportedToken t := by
  induction start with
  | nil => rfl
  | cons c start ih =>
    rw [isAllBlank_cons, Bool.and_eq_true] at hstart
    rw [List.cons_append, hasUnsupportedToken, tokens_cons_of_isBlank hstart.1,
      ← hasUnsupportedToken, ih hstart.2]

/-- Blanks at the end belong to no token. -/
theorem hasUnsupportedToken_of_trimEnd {t : Text} (h : hasUnsupportedToken (trimEnd t) = true) :
    hasUnsupportedToken t = true := by
  obtain ⟨blanks, hblanks, ht⟩ := exists_eq_trimEnd_append t
  rw [ht]
  exact hasUnsupportedToken_append (isBlank_of_mem_head? hblanks) h

/-- **Blanks at the ends belong to no token.** -/
theorem hasUnsupportedToken_of_trim {t : Text} (h : hasUnsupportedToken (trim t) = true) :
    hasUnsupportedToken t = true := by
  rw [← takeWhile_append_trimStart t, hasUnsupportedToken_blank_append (isAllBlank_takeWhile t)]
  exact hasUnsupportedToken_of_trimEnd h

/-! ### Markers that stand apart -/

/-- **The markers of a value stand apart**: a word with a marker in it is a marker. -/
def MarkersStandApart (value : Text) : Prop :=
  ∀ w ∈ splitWords isBlank value, importantMarker <:+: w → w = importantMarker

instance (value : Text) : Decidable (MarkersStandApart value) :=
  inferInstanceAs (Decidable (∀ w ∈ splitWords isBlank value, _))

/-- A blank and a marker, as they are erased. -/
abbrev spacedMarker : Text := ' ' :: importantMarker

/-- No word goes on after a marker that is erased from a text. -/
def EndsAtMarkers (t : Text) : Prop :=
  ∀ rest, spacedMarker ++ rest <:+ t → ∀ c ∈ rest.head?, isBlank c = true

theorem EndsAtMarkers.of_suffix {s t : Text} (h : EndsAtMarkers t) (hs : s <:+ t) :
    EndsAtMarkers s :=
  fun rest hrest => h rest (hrest.trans hs)

theorem importantMarker_ne_nil : importantMarker ≠ [] := by decide

/-- A marker holds no blank and no parenthesis. -/
theorem of_mem_importantMarker {c : Char} (hc : c ∈ importantMarker) :
    isBlank c = false ∧ c ≠ '(' ∧ c ≠ ')' := by
  have hall : importantMarker.all (fun c => !isBlank c && (c != '(' && c != ')')) = true := by
    decide
  simpa using List.all_eq_true.mp hall c hc

/-- **A marker that stands apart ends a word.** -/
theorem MarkersStandApart.endsAtMarkers {value : Text} (h : MarkersStandApart value) :
    EndsAtMarkers value := by
  rintro rest ⟨start, rfl⟩
  obtain ⟨w, rest, rfl, hw, hrest⟩ := exists_eq_append_of_head? isBlank rest
  have hword : importantMarker ++ w ∈
      splitWords isBlank (start ++ (spacedMarker ++ (w ++ rest))) := by
    have hplace : start ++ (spacedMarker ++ (w ++ rest)) =
        (start ++ [' ']) ++ ((importantMarker ++ w) ++ rest) := by simp
    rw [hplace]
    refine mem_splitWords (List.cons_ne_nil _ _) (fun c hc => ?_) (fun c hc => ?_) hrest
    · exact (List.mem_append.mp hc).elim (fun hc => (of_mem_importantMarker hc).1) (hw c)
    · rw [List.getLast?_concat] at hc
      obtain rfl := Option.some.inj hc
      rfl
  have hnil : w = [] :=
    List.append_right_eq_self.mp (h _ hword (List.prefix_append _ _).isInfix)
  rwa [hnil]

/-! ### Erasing markers -/

/-- **A blank and a marker in front of a text take no token away**, if no word goes on after
them. -/
theorem meetsUnsupported_spacedMarker {read : Text} {depth : Nat} {t : Text}
    (hopen : depth = 0 ∨ '(' ∈ read) (ht : ∀ c ∈ t.head?, isBlank c = true)
    (h : meetsUnsupported read depth t = true) :
    meetsUnsupported read depth (spacedMarker ++ t) = true := by
  rcases eq_or_ne depth 0 with rfl | hdepth
  -- the token before the marker ends at the blank, and the marker is a token of its own
  · have hmarker : ∀ c ∈ importantMarker, c ≠ '(' ∧ c ≠ ')' ∧ (isBlank c = false ∨ 0 ≠ 0) := by
      intro c hc
      obtain ⟨hblank, hchar⟩ := of_mem_importantMarker hc
      exact ⟨hchar.1, hchar.2, .inl hblank⟩
    rw [List.cons_append, meetsUnsupported_blank read rfl, meetsUnsupported_append hmarker,
      Bool.or_eq_true]
    cases t with
    | nil => exact .inl h
    | cons c t =>
      rw [meetsUnsupported_blank _ (ht c rfl), Bool.or_eq_true] at h ⊢
      exact h.imp_right .inr
  -- the token goes on, and was settled before
  · have hparen : '(' ∈ read := hopen.resolve_left hdepth
    have hmarker : ∀ c ∈ spacedMarker, c ≠ '(' ∧ c ≠ ')' ∧ (isBlank c = false ∨ depth ≠ 0) := by
      intro c hc
      rcases List.mem_cons.mp hc with rfl | hc
      · exact ⟨by decide, by decide, .inr hdepth⟩
      · obtain ⟨-, hchar⟩ := of_mem_importantMarker hc
        exact ⟨hchar.1, hchar.2, .inr hdepth⟩
    rw [meetsUnsupported_append hmarker, meetsUnsupported_append_read hparen]
    exact h

/-- **Erasing markers makes no token that no attribute can take.** -/
theorem meetsUnsupported_of_erase {read : Text} {depth : Nat} {t : Text}
    (hopen : depth = 0 ∨ '(' ∈ read) (ht : EndsAtMarkers t)
    (h : meetsUnsupported read depth (erase spacedMarker t) = true) :
    meetsUnsupported read depth t = true := by
  have hne : spacedMarker ≠ [] := List.cons_ne_nil _ _
  induction t using erase_induction hne generalizing read depth with
  | nil => exact h
  | found t ih =>
    rw [erase_append hne] at h
    have hmeets := ih hopen (ht.of_suffix (List.suffix_append _ _)) h
    exact meetsUnsupported_spacedMarker hopen (ht t List.suffix_rfl) hmeets
  | other c t hprefix ih =>
    rw [erase_cons_of_not_isPrefixOf hprefix] at h
    have hrest := ht.of_suffix (List.suffix_cons c t)
    rw [meetsUnsupported] at h ⊢
    split at h
    · rename_i hc
      rw [if_pos hc, Bool.or_eq_true]
      exact (Bool.or_eq_true _ _ ▸ h).imp_right (ih (.inl rfl) hrest)
    · rename_i hc
      rw [if_neg hc]
      exact ih (depthAfter_eq_zero_or hopen) hrest h

/-- **Erasing markers makes no words**, after any beginning. -/
theorem splitWords_erase_subset {t : Text} (ht : EndsAtMarkers t) (start : Text) :
    splitWords isBlank (start ++ erase spacedMarker t) ⊆ splitWords isBlank (start ++ t) := by
  have hne : spacedMarker ≠ [] := List.cons_ne_nil _ _
  induction t using erase_induction hne generalizing start with
  | nil => exact List.Subset.refl _
  | found t ih =>
    rw [erase_append hne]
    refine List.Subset.trans (ih (ht.of_suffix (List.suffix_append _ _)) start) ?_
    rw [List.cons_append, splitWords_append_cons rfl]
    cases t with
    | nil =>
      rw [List.append_nil]
      exact List.subset_append_left _ _
    | cons c t =>
      have hc : isBlank c = true := ht (c :: t) List.suffix_rfl c rfl
      rw [splitWords_append_cons hc, splitWords_append_cons hc]
      exact List.append_subset.mpr ⟨List.subset_append_left _ _,
        List.Subset.trans (List.subset_append_right _ _) (List.subset_append_right _ _)⟩
  | other c t hprefix ih =>
    rw [erase_cons_of_not_isPrefixOf hprefix]
    simpa using ih (ht.of_suffix (List.suffix_cons c t)) (start ++ [c])

/-! ### The values that are translated -/

/-- **A marker at the end that is left is a word**: what comes before it is empty or ends with a
blank. -/
theorem MarkersStandApart.getLast?_of_trim {value rest : Text} (h : MarkersStandApart value)
    (hrest : trim (erase spacedMarker value) = rest ++ importantMarker) :
    ∀ c ∈ rest.getLast?, isBlank c = true := by
  obtain ⟨start, stop, hstart, hstop, hvalue⟩ := exists_eq_append_trim (erase spacedMarker value)
  obtain ⟨rest, w, rfl, hw, hblank⟩ := exists_eq_append_of_getLast? isBlank rest
  have hword : w ++ importantMarker ∈ splitWords isBlank (erase spacedMarker value) := by
    have hplace : erase spacedMarker value =
        (start ++ rest) ++ ((w ++ importantMarker) ++ stop) := by
      rw [hvalue, hrest]
      simp
    rw [hplace]
    have hne : w ++ importantMarker ≠ [] :=
      List.append_ne_nil_of_right_ne_nil w importantMarker_ne_nil
    refine mem_splitWords hne (fun c hc => ?_) (fun c hc => ?_) (isBlank_of_mem_head? hstop)
    · exact (List.mem_append.mp hc).elim (hw c) fun hc => (of_mem_importantMarker hc).1
    · rw [List.getLast?_append] at hc
      rcases Option.or_eq_some_iff.mp hc with hc | ⟨-, hc⟩
      · exact hblank c hc
      · exact isBlank_of_mem_isAllBlank hstart (List.mem_of_getLast? hc)
  have hmem := splitWords_erase_subset h.endsAtMarkers [] hword
  have hnil : w = [] :=
    List.append_left_eq_self.mp (h _ hmem (List.suffix_append _ _).isInfix)
  rwa [hnil, List.append_nil]

/-- **No token that no attribute can take is overlooked**: if the markers of a value stand apart,
each such token of the value without markers is one of the value. -/
theorem hasUnsupportedToken_of_stripImportant {value : Text} (h : MarkersStandApart value)
    (htoken : hasUnsupportedToken (stripImportant value) = true) :
    hasUnsupportedToken value = true := by
  have herased : hasUnsupportedToken (trim (erase spacedMarker value)) = true := by
    rw [stripImportant] at htoken
    split at htoken
    · rename_i rest hrest
      rw [beforeEnd?_eq_some_iff] at hrest
      have hlast := h.getLast?_of_trim hrest
      rw [hrest]
      rcases List.eq_nil_or_concat rest with rfl | ⟨rest, c, rfl⟩
      · simp [hasUnsupportedToken] at htoken
      · rw [List.concat_eq_append] at hlast htoken ⊢
        have hc := hlast c List.getLast?_concat
        rw [trimEnd_append_blank (by simpa using hc)] at htoken
        rw [List.append_assoc]
        refine hasUnsupportedToken_append (fun d hd => ?_) (hasUnsupportedToken_of_trimEnd htoken)
        obtain rfl := Option.some.inj hd
        exact hc
    · exact htoken
  have hmeets := hasUnsupportedToken_of_trim herased
  rw [hasUnsupportedToken_eq] at hmeets ⊢
  exact meetsUnsupported_of_erase (.inl rfl) h.endsAtMarkers hmeets

end CssResources
