import CssResources.Proofs.Checked
import CssResources.Proofs.Text.Parts
import CssResources.Value.Token

/-!
# Tokens and the blanks between them

A value is cut into tokens at its **separators**, the blanks outside parentheses
(`CssResources.isSeparatorAt`). Parentheses are counted from the start of the value, and one that
closes none is not counted (`CssResources.openParens`), so it can be told for each place of a value
if a separator stands there, however badly its parentheses match.

Where a token stands is its **span**, from one offset to another one. The spans are found in one
pass (`CssResources.tokenSpansFrom`), whose state is best read off the text itself: what comes
before the present token, what was read of it, and what is left
(`CssResources.spansFrom`). A separator ends the present token and is in no other one; any other
character belongs to it.

| what is known of the tokens | lemma |
|---|---|
| they are what the spans cut out | `CssResources.mapM_slice_spansFrom` |
| only the separators are lost | `CssResources.flatten_tokenParts` |
| two characters share a span if no separator stands between them | `CssResources.inOneSpan_iff` |
| they can be put in a row again | `CssResources.AreSeparable.tokens_intercalate` |

For the last of these it matters that **only the last token may leave a parenthesis open**: a
separator stands outside parentheses, so all the others close what they open
(`CssResources.areSeparable_tokenParts`).
-/

namespace CssResources

/-! ### Separators -/

/-- **The number of parentheses open at the end of a text**, where one that closes none is not
counted. -/
def openParens (t : Text) : Nat := t.foldl depthAfter 0

/-- **A separator stands at a place of a text**: a blank outside parentheses. -/
def isSeparatorAt (t : Text) (i : Nat) : Bool := (t[i]?).any isBlank && openParens (t.take i) == 0

/-- **The characters of a text that are no separators.** -/
def withoutSeparators (t : Text) : Text :=
  (t.zipIdx.filter fun p => !isSeparatorAt t p.2).map Prod.fst

theorem openParens_concat (t : Text) (c : Char) :
    openParens (t ++ [c]) = depthAfter (openParens t) c := by
  simp [openParens]

/-- A blank opens no parenthesis and closes none. -/
theorem depthAfter_of_isBlank {c : Char} (h : isBlank c = true) (depth : Nat) :
    depthAfter depth c = depth := by
  have hopening : c ≠ '(' := by rintro rfl; exact absurd h (by decide)
  have hclosing : c ≠ ')' := by rintro rfl; exact absurd h (by decide)
  rw [depthAfter, if_neg hopening, if_neg hclosing]

/-- What stands after the beginning of a text. -/
theorem isSeparatorAt_length {t u rest : Text} {c : Char} (ht : t = u ++ c :: rest) :
    isSeparatorAt t u.length = (isBlank c && openParens u == 0) := by
  subst ht
  simp [isSeparatorAt]

/-! ### The parts of a value -/

theorem flatten_consHead (c : Char) (ws : List Text) :
    (consHead c ws).flatten = c :: ws.flatten := by
  cases ws with
  | nil => rfl
  | cons w ws => rfl

/-- **Nothing but the separators is lost when a value is cut.** -/
theorem flatten_tokenParts {value u t : Text} (h : value = u ++ t) :
    (tokenParts (openParens u) t).flatten =
      ((t.zipIdx u.length).filter fun p => !isSeparatorAt value p.2).map Prod.fst := by
  induction t generalizing u with
  | nil => simp
  | cons c t ih =>
    have hrest := ih (u := u ++ [c]) (by rw [h, List.append_assoc, List.singleton_append])
    rw [List.length_append, List.length_singleton, openParens_concat] at hrest
    rw [tokenParts, List.zipIdx_cons, List.filter_cons, isSeparatorAt_length h]
    split
    · rename_i hc
      obtain ⟨hblank, hdepth⟩ : isBlank c = true ∧ openParens u = 0 := by simpa using hc
      rw [depthAfter_of_isBlank hblank, hdepth] at hrest
      rw [hc, List.flatten_cons, List.nil_append, hrest, if_neg (by simp)]
    · rename_i hc
      rw [flatten_consHead, hrest, Bool.eq_false_iff.mpr hc, Bool.not_false, if_pos rfl,
        List.map_cons]

theorem tokenParts_ne_nil (depth : Nat) (t : Text) : tokenParts depth t ≠ [] := by
  cases t with
  | nil => simp
  | cons c t =>
    rw [tokenParts]
    split
    · simp
    · cases tokenParts (depthAfter depth c) t <;> simp

/-- **A text that is one part goes on as one.** -/
theorem tokenParts_append {depth : Nat} {w : Text} (h : tokenParts depth w = [w]) (t : Text) :
    tokenParts depth (w ++ t) = w.foldr consHead (tokenParts (w.foldl depthAfter depth) t) := by
  induction w generalizing depth with
  | nil => rfl
  | cons c w ih =>
    rw [tokenParts] at h
    split at h
    · simp at h
    · rename_i hc
      obtain ⟨v, vs, hv⟩ := List.exists_cons_of_ne_nil (tokenParts_ne_nil (depthAfter depth c) w)
      have hw : tokenParts (depthAfter depth c) w = [w] := by
        rw [hv] at h ⊢
        simpa using h
      rw [List.cons_append, tokenParts, if_neg hc, ih hw, List.foldr_cons, List.foldl_cons]

/-- **Texts that can be put in a row of tokens**: each is one part, and only the last one may leave
a parenthesis open. -/
structure AreSeparable (ws : List Text) : Prop where
  /-- No text has a separator. -/
  whole : ∀ w ∈ ws, tokenParts 0 w = [w]
  /-- A text that another one follows leaves no parenthesis open. -/
  closed : ws.Pairwise fun w _ => openParens w = 0

/-- **The parts of a value can be put in a row**, also those after what was read of the first. -/
theorem areSeparable_tokenParts {w : Text} (h : tokenParts 0 w = [w]) (t : Text) :
    AreSeparable (w.foldr consHead (tokenParts (openParens w) t)) := by
  induction t generalizing w with
  | nil =>
    rw [tokenParts_nil, foldr_consHead, List.append_nil]
    exact ⟨by simpa using h, List.pairwise_singleton _ _⟩
  | cons c t ih =>
    rw [tokenParts]
    split
    · rename_i hc
      obtain ⟨-, hdepth⟩ : isBlank c = true ∧ openParens w = 0 := by simpa using hc
      have hrest : AreSeparable (tokenParts 0 t) := ih (tokenParts_nil 0)
      rw [foldr_consHead, List.append_nil]
      exact ⟨List.forall_mem_cons.mpr ⟨h, hrest.whole⟩,
        List.pairwise_cons.mpr ⟨fun _ _ => hdepth, hrest.closed⟩⟩
    · rename_i hc
      have hone : tokenParts 0 (w ++ [c]) = [w ++ [c]] := by
        have hlast : tokenParts (openParens w) [c] = [[c]] := by
          rw [tokenParts, if_neg hc, tokenParts_nil, consHead_cons]
        rw [tokenParts_append h, ← openParens, hlast, foldr_consHead]
      have hrest := ih hone
      rwa [openParens_concat, List.foldr_append, List.foldr_cons, List.foldr_nil] at hrest

theorem AreSeparable.sublist {ws vs : List Text} (h : AreSeparable ws) (hvs : vs.Sublist ws) :
    AreSeparable vs :=
  ⟨fun v hv => h.whole v (hvs.subset hv), h.closed.sublist hvs⟩

/-- **Tokens in a row, with a space between each two of them, are cut apart again.** -/
theorem AreSeparable.tokens_intercalate {ws : List Text} (h : AreSeparable ws) (hne : [] ∉ ws) :
    tokens ([' '].intercalate ws) = ws := by
  have hfilter {w : Text} (hw : w ≠ []) (vs : List Text) :
      (w :: vs).filter (!·.isEmpty) = w :: vs.filter (!·.isEmpty) :=
    List.filter_cons_of_pos (by simpa using hw)
  induction ws with
  | nil => rfl
  | cons w ws ih =>
    rw [List.mem_cons, not_or] at hne
    have hw := h.whole w (List.mem_cons_self ..)
    cases ws with
    | nil => rw [List.intercalate_singleton, tokens, hw, hfilter (Ne.symm hne.1), List.filter_nil]
    | cons v ws =>
      have hclosed : w.foldl depthAfter 0 = 0 :=
        (List.pairwise_cons.mp h.closed).1 v (List.mem_cons_self ..)
      have hrest := ih (h.sublist (List.sublist_cons_self _ _)) hne.2
      have hspace (t : Text) : tokenParts 0 (' ' :: t) = [] :: tokenParts 0 t := by
        rw [tokenParts, if_pos (by decide)]
      rw [List.intercalate_cons_cons, List.append_assoc, List.singleton_append, tokens,
        tokenParts_append hw, hclosed, hspace, foldr_consHead, List.append_nil,
        hfilter (Ne.symm hne.1), ← tokens, hrest]

/-! ### The spans of tokens -/

/-- **The offsets between which tokens stand**, if the text begins at an offset, with so many
parentheses open, and the present token started where it says. -/
def tokenSpansFrom (offset depth : Nat) (start : Option Nat) : Text → List (Nat × Nat)
  | [] => start.toList.map fun s => (s, offset)
  | c :: t =>
    let depth := depthAfter depth c
    let next := offset + c.utf8Size
    if isBlank c && depth == 0 then
      (start.toList.map fun s => (s, offset)) ++ tokenSpansFrom next depth none t
    else tokenSpansFrom next depth (start.or (some offset)) t

/-- **The spans of the tokens of a value.** -/
def tokenSpans (value : Text) : List (Nat × Nat) := tokenSpansFrom 0 0 none value

/-- The tokens of a value, cut out at their spans. -/
def tokensAtOffsets (value : Text) : Except Fault (List Text) :=
  (tokenSpans value).mapM fun span => slice span.1 span.2 value

/-- The span of what was read of a token after a text, if anything was. -/
def span? (s w : Text) : Option (Nat × Nat) :=
  if w.isEmpty then none else some (utf8Size s, utf8Size (s ++ w))

/-- **The spans of the present token and those after it**: `s` is the text before the present token,
`w` what was read of it, and `t` what is left. -/
def spansFrom (s w t : Text) : List (Nat × Nat) :=
  tokenSpansFrom (utf8Size (s ++ w)) (openParens (s ++ w)) ((span? s w).map Prod.fst) t

section Spans

variable {s w t : Text} {c : Char}

theorem spansFrom_nil (s w : Text) : spansFrom s w [] = (span? s w).toList := by
  rw [spansFrom, span?, tokenSpansFrom]
  split <;> rfl

/-- **A separator ends the present token.** -/
theorem spansFrom_separator (hblank : isBlank c = true) (hdepth : openParens (s ++ w) = 0)
    (t : Text) :
    spansFrom s w (c :: t) = (span? s w).toList ++ spansFrom (s ++ w ++ [c]) [] t := by
  have hafter := depthAfter_of_isBlank hblank (openParens (s ++ w))
  rw [spansFrom, tokenSpansFrom, hafter, if_pos (by simp [hblank, hdepth]), spansFrom,
    List.append_nil, openParens_concat, hafter, utf8Size_concat]
  congr 1
  rw [span?]
  split <;> rfl

/-- **Any other character belongs to the present token.** -/
theorem spansFrom_cons (hc : (isBlank c && openParens (s ++ w) == 0) = false) (t : Text) :
    spansFrom s w (c :: t) = spansFrom s (w ++ [c]) t := by
  have hinside : (isBlank c && depthAfter (openParens (s ++ w)) c == 0) = false := by
    cases hblank : isBlank c with
    | false => rfl
    | true => rwa [depthAfter_of_isBlank hblank, ← hblank]
  have hspan : ((span? s w).map Prod.fst).or (some (utf8Size (s ++ w))) =
      (span? s (w ++ [c])).map Prod.fst := by
    cases w <;> simp [span?]
  rw [spansFrom, tokenSpansFrom, hinside, if_neg (by simp), spansFrom, ← List.append_assoc,
    openParens_concat, utf8Size_concat, hspan]

/-- **Induction along the characters of a value**, with the state of the pass: at a separator the
next token begins, and any other character is read. -/
@[elab_as_elim]
theorem spans_induction {P : Text → Text → Text → Prop} (nil : ∀ s w, P s w [])
    (separator : ∀ s w c t, isBlank c = true → openParens (s ++ w) = 0 →
      P (s ++ w ++ [c]) [] t → P s w (c :: t))
    (inside : ∀ s w c t, (isBlank c && openParens (s ++ w) == 0) = false →
      P s (w ++ [c]) t → P s w (c :: t)) (s w t : Text) : P s w t := by
  induction t generalizing s w with
  | nil => exact nil s w
  | cons c t ih =>
    cases hc : isBlank c && openParens (s ++ w) == 0 with
    | true =>
      obtain ⟨hblank, hdepth⟩ : isBlank c = true ∧ openParens (s ++ w) = 0 := by simpa using hc
      exact separator s w c t hblank hdepth (ih _ _)
    | false => exact inside s w c t hc (ih _ _)

/-- What was read of a token is cut out at its span. -/
theorem mapM_slice_span? {value : Text} (h : value = s ++ (w ++ t)) :
    (span? s w).toList.mapM (fun span => slice span.1 span.2 value) =
      .ok ([w].filter (!·.isEmpty)) := by
  cases w with
  | nil => rfl
  | cons x w =>
    have hslice : slice (utf8Size s) (utf8Size (s ++ x :: w)) value = .ok (x :: w) := by
      rw [h]
      exact slice_append s (x :: w) t
    show [(utf8Size s, utf8Size (s ++ x :: w))].mapM _ = _
    rw [List.mapM_cons, hslice]
    rfl

/-- **The spans cut out the tokens.** -/
theorem mapM_slice_spansFrom {value : Text} (h : value = s ++ (w ++ t)) :
    (spansFrom s w t).mapM (fun span => slice span.1 span.2 value) =
      .ok ((w.foldr consHead (tokenParts (openParens (s ++ w)) t)).filter (!·.isEmpty)) := by
  induction s, w, t using spans_induction with
  | nil s w =>
    rw [spansFrom_nil, mapM_slice_span? h, tokenParts_nil, foldr_consHead, List.append_nil]
  | separator s w c t hblank hdepth ih =>
    have hzero : openParens (s ++ w ++ [c] ++ []) = 0 := by
      rw [List.append_nil, openParens_concat, depthAfter_of_isBlank hblank, hdepth]
    have hrest := ih (by simp [h])
    rw [hzero, List.foldr_nil] at hrest
    rw [spansFrom_separator hblank hdepth, List.mapM_append, mapM_slice_span? h, ok_bind, hrest,
      ok_bind, tokenParts, if_pos (by simp [hblank, hdepth]), foldr_consHead, List.append_nil,
      List.filter_cons, List.filter_cons]
    split <;> rfl
  | inside s w c t hc ih =>
    have hrest := ih (by simp [h])
    rw [← List.append_assoc, openParens_concat, List.foldr_append] at hrest
    rw [spansFrom_cons hc, hrest, tokenParts, if_neg (by simp [hc])]
    rfl

end Spans

/-! ### Characters and spans -/

/-- The offset of the character at a place. -/
def offsetAt (t : Text) (i : Nat) : Nat := utf8Size (t.take i)

theorem offsetAt_length (s t : Text) : offsetAt (s ++ t) s.length = utf8Size s := by
  rw [offsetAt, List.take_left]

theorem offsetAt_le {i j : Nat} (t : Text) (h : i ≤ j) : offsetAt t i ≤ offsetAt t j := by
  obtain ⟨u, hu⟩ := List.take_prefix_take_left (l := t) h
  rw [offsetAt, offsetAt, ← hu, utf8Size_append]
  exact Nat.le_add_right _ _

/-- **Offsets are in the order of the characters.** -/
theorem offsetAt_lt_iff {t : Text} {i j : Nat} (hj : j ≤ t.length) :
    offsetAt t i < offsetAt t j ↔ i < j := by
  constructor
  · exact fun h => Nat.lt_of_not_le fun hle => Nat.not_le_of_lt h (offsetAt_le t hle)
  · intro h
    have hsplit : t.take j = t.take i ++ (t.drop i).take (j - i) := by
      rw [← List.take_add, Nat.add_sub_cancel' (Nat.le_of_lt h)]
    have hne : (t.drop i).take (j - i) ≠ [] := by
      rw [Ne, List.take_eq_nil_iff, List.drop_eq_nil_iff]
      omega
    have hpos := utf8Size_pos hne
    rw [offsetAt, offsetAt, hsplit, utf8Size_append]
    omega

/-- **Two characters are in one span of a list**, the second not before the first. -/
def InOneSpan (value : Text) (spans : List (Nat × Nat)) (i j : Nat) : Prop :=
  ∃ span ∈ spans, span.1 ≤ offsetAt value i ∧ offsetAt value j < span.2

section Places

variable {value s w t : Text} {i j : Nat}

theorem inOneSpan_append {spans spans' : List (Nat × Nat)} :
    InOneSpan value (spans ++ spans') i j ↔
      InOneSpan value spans i j ∨ InOneSpan value spans' i j := by
  simp only [InOneSpan, List.mem_append, or_and_right, exists_or]

theorem eq_of_mem_span? {span : Nat × Nat} (h : span ∈ (span? s w).toList) :
    span = (utf8Size s, utf8Size (s ++ w)) := by
  rw [span?] at h
  split at h
  · simp at h
  · simpa using h

theorem le_of_mem_span? {span : Nat × Nat} (h : span ∈ (span? s w).toList) :
    utf8Size s ≤ span.1 :=
  Nat.le_of_eq (congrArg Prod.fst (eq_of_mem_span? h)).symm

/-- The characters of the present token are in its span. -/
theorem inOneSpan_span?_iff (h : value = s ++ (w ++ t)) (hi : s.length ≤ i) (hij : i ≤ j) :
    InOneSpan value (span? s w).toList i j ↔ j < s.length + w.length := by
  have hstart : utf8Size s ≤ offsetAt value i := by
    rw [h, ← offsetAt_length s (w ++ t)]
    exact offsetAt_le _ hi
  have hstop : offsetAt value j < utf8Size (s ++ w) ↔ j < s.length + w.length := by
    have hlength : (s ++ w).length ≤ value.length := by
      rw [h, ← List.append_assoc]
      exact (List.prefix_append (s ++ w) t).length_le
    rw [← offsetAt_length (s ++ w) t, List.append_assoc, ← h, offsetAt_lt_iff hlength,
      List.length_append]
  cases w with
  | nil =>
    simp only [InOneSpan, span?, List.isEmpty_nil, if_true, Option.toList_none, List.not_mem_nil,
      false_and, exists_false, false_iff, List.length_nil]
    omega
  | cons x w =>
    rw [← hstop]
    constructor
    · rintro ⟨span, hspan, -, hj⟩
      rwa [eq_of_mem_span? hspan] at hj
    · exact fun hj => ⟨_, List.mem_singleton_self _, hstart, hj⟩

/-- No span starts before the present token. -/
theorem le_of_mem_spansFrom {span : Nat × Nat} (h : span ∈ spansFrom s w t) :
    utf8Size s ≤ span.1 := by
  induction s, w, t using spans_induction with
  | nil s w =>
    rw [spansFrom_nil] at h
    exact le_of_mem_span? h
  | separator s w c t hblank hdepth ih =>
    rw [spansFrom_separator hblank hdepth, List.mem_append] at h
    rcases h with h | h
    · exact le_of_mem_span? h
    · have hle := ih h
      rw [List.append_assoc, utf8Size_append] at hle
      exact Nat.le_of_add_right_le hle
  | inside s w c t hc ih =>
    rw [spansFrom_cons hc] at h
    exact ih h

theorem pairwise_span? (s w : Text) (R : Nat × Nat → Nat × Nat → Prop) :
    (span? s w).toList.Pairwise R := by
  rw [span?]
  split <;> simp

/-- **Tokens stand one after the other**, and never next to each other. -/
theorem pairwise_spansFrom (s w t : Text) :
    (spansFrom s w t).Pairwise fun span span' => span.2 < span'.1 := by
  induction s, w, t using spans_induction with
  | nil s w =>
    rw [spansFrom_nil]
    exact pairwise_span? s w _
  | separator s w c t hblank hdepth ih =>
    rw [spansFrom_separator hblank hdepth, List.pairwise_append]
    refine ⟨pairwise_span? s w _, ih, fun span hspan span' hspan' => ?_⟩
    have hle := le_of_mem_spansFrom hspan'
    have hpos := c.utf8Size_pos
    rw [utf8Size_concat] at hle
    rw [eq_of_mem_span? hspan]
    show utf8Size (s ++ w) < span'.1
    omega
  | inside s w c t hc ih => rwa [spansFrom_cons hc]

/-- **Two characters are in one span exactly if there is no separator from the one to the other**,
as far as the spans go that are still to be found. -/
theorem inOneSpan_iff (h : value = s ++ (w ++ t)) (hi : s.length ≤ i) (hij : i ≤ j)
    (hw : ∀ k, s.length ≤ k → k < s.length + w.length → isSeparatorAt value k = false) :
    InOneSpan value (spansFrom s w t) i j ↔
      j < value.length ∧ ∀ k, i ≤ k → k ≤ j → isSeparatorAt value k = false := by
  -- where the present token goes on, the next character has its place
  have hplace {s w t : Text} {c : Char} (h : value = s ++ (w ++ c :: t)) :
      isSeparatorAt value (s.length + w.length) = (isBlank c && openParens (s ++ w) == 0) := by
    rw [← List.length_append]
    exact isSeparatorAt_length (by rw [h, List.append_assoc])
  induction s, w, t using spans_induction with
  | nil s w =>
    have hlength : value.length = s.length + w.length := by rw [h]; simp
    rw [spansFrom_nil, inOneSpan_span?_iff h hi hij, hlength]
    exact ⟨fun hj => ⟨hj, fun k hk hkj => hw k (by omega) (by omega)⟩, fun hj => hj.1⟩
  | separator s w c t hblank hdepth ih =>
    have hseparator : isSeparatorAt value (s.length + w.length) = true := by
      rw [hplace h, hblank, hdepth]
      rfl
    have hlength : s.length + w.length < value.length := by rw [h]; simp
    have hnext : value = s ++ w ++ [c] ++ ([] ++ t) := by simp [h]
    have hnextLength : (s ++ w ++ [c]).length = s.length + w.length + 1 := by
      rw [List.length_append, List.length_append, List.length_singleton]
    rw [spansFrom_separator hblank hdepth, inOneSpan_append, inOneSpan_span?_iff h hi hij]
    -- the separator is behind both characters, or it is before both, or it is between them
    rcases Nat.lt_or_ge j (s.length + w.length) with hj | hj
    · exact ⟨fun _ => ⟨by omega, fun k hk hkj => hw k (by omega) (by omega)⟩, fun _ => .inl hj⟩
    rcases Nat.lt_or_ge (s.length + w.length) i with hbefore | hbefore
    · exact (or_iff_right (Nat.not_lt_of_le hj)).trans
        (ih hnext (by omega) fun k hk hk' => absurd hk' (Nat.not_lt_of_le hk))
    · refine iff_of_false ?_ fun hnone => ?_
      · rintro (hlt | ⟨span, hspan, hle, -⟩)
        · exact Nat.not_lt_of_le hj hlt
        · -- the character stands before the next token
          have hstart : offsetAt value i < utf8Size (s ++ w ++ [c]) := by
            rw [← offsetAt_length (s ++ w ++ [c]) ([] ++ t), ← hnext, offsetAt_lt_iff (by omega)]
            omega
          exact Nat.not_lt_of_le (Nat.le_trans (le_of_mem_spansFrom hspan) hle) hstart
      · exact absurd (hnone.2 _ hbefore hj) (by simp [hseparator])
  | inside s w c t hc ih =>
    rw [spansFrom_cons hc]
    refine ih (by simp [h]) hi fun k hk hk' => ?_
    rw [List.length_append, List.length_singleton] at hk'
    rcases Nat.lt_or_ge k (s.length + w.length) with hlt | hge
    · exact hw k hk hlt
    · obtain rfl : k = s.length + w.length := by omega
      rw [hplace h, hc]

end Places

/-! ### Tokens -/

/-- **Tokens are what stands between separators.** The spans of a value cut out its tokens; no token
is empty; together they are the value without its separators, in order; a character stands in the
same token as one further on exactly if no separator stands from the one to the other; and put in
a row with a space between each two of them, they are the same tokens again. -/
theorem tokens_between_separators (value : Text) :
    tokensAtOffsets value = .ok (tokens value) ∧
      [] ∉ tokens value ∧
      (tokenSpans value).Pairwise (fun span span' => span.2 < span'.1) ∧
      (tokens value).flatten = withoutSeparators value ∧
      (∀ i n, InOneSpan value (tokenSpans value) i (i + n) ↔
        i + n < value.length ∧ ∀ k ≤ n, isSeparatorAt value (i + k) = false) ∧
      tokens ([' '].intercalate (tokens value)) = tokens value := by
  have hne : [] ∉ tokens value := by simp [tokens]
  refine ⟨mapM_slice_spansFrom (s := []) (w := []) rfl, hne, pairwise_spansFrom [] [] value, ?_,
    fun i n => ?_, ?_⟩
  · rw [tokens, List.flatten_filter_not_isEmpty]
    exact flatten_tokenParts (u := []) rfl
  · have hspan : InOneSpan value (tokenSpans value) i (i + n) ↔
        i + n < value.length ∧ ∀ k, i ≤ k → k ≤ i + n → isSeparatorAt value k = false :=
      inOneSpan_iff (s := []) (w := []) rfl (Nat.zero_le i) (Nat.le_add_right i n)
        fun k _ hk => absurd hk (Nat.not_lt_zero k)
    refine hspan.trans (and_congr_right fun _ => ⟨fun h k hk => ?_, fun h k hk hkn => ?_⟩)
    · exact h (i + k) (Nat.le_add_right i k) (Nat.add_le_add_left hk i)
    · have hplace := h (k - i) (by omega)
      rwa [Nat.add_sub_cancel' hk] at hplace
  · exact ((areSeparable_tokenParts (tokenParts_nil 0) value).sublist
      List.filter_sublist).tokens_intercalate hne

end CssResources
