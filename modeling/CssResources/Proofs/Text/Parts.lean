import CssResources.Text.Basic

/-!
# The parts of a text

Texts in a row, with a text between each two of them, and the cuts that take a text apart
again: at the start, at the first separator, at every separator, at the end, and where two
characters first come in a row.
-/

namespace CssResources

/-! ### Texts in a row -/

section Row

variable {ss : List Text}

/-- A row of texts has a property that its texts and the text between them have, and that goes
from texts to texts in a row. -/
theorem intercalate_induction {P : Text → Prop} (sep : Text) (hnil : P [])
    (happend : ∀ s t, P s → P t → P (s ++ t)) (hsep : P sep) (h : ∀ s ∈ ss, P s) :
    P (sep.intercalate ss) := by
  induction ss with
  | nil => exact hnil
  | cons s ss ih =>
    have hs := h s (List.mem_cons_self ..)
    have hss := ih fun s hs => h s (List.mem_cons_of_mem _ hs)
    cases ss with
    | nil => rwa [List.intercalate_singleton]
    | cons s' ss =>
      rw [List.intercalate_cons_cons]
      exact happend _ _ (happend _ _ hs hsep) hss

/-- A text stands in its row in one piece. -/
theorem isInfix_intercalate (sep : Text) {s : Text} (h : s ∈ ss) : s <:+: sep.intercalate ss := by
  induction ss with
  | nil => simp at h
  | cons s' ss ih =>
    cases ss with
    | nil =>
      rw [List.intercalate_singleton]
      exact ⟨[], [], by simpa using h⟩
    | cons s'' ss =>
      rw [List.intercalate_cons_cons]
      rcases List.mem_cons.mp h with rfl | h
      · exact ((List.prefix_append s sep).trans (List.prefix_append _ _)).isInfix
      · exact (ih h).trans (List.suffix_append _ _).isInfix

/-- The first character of a row of texts is that of its first text. -/
theorem head?_intercalate (sep : Text) {s : Text} (hs : s ≠ []) :
    (sep.intercalate (s :: ss)).head? = s.head? := by
  obtain ⟨c, s, rfl⟩ := List.exists_cons_of_ne_nil hs
  cases ss with
  | nil => rw [List.intercalate_singleton]
  | cons s' ss =>
    rw [List.intercalate_cons_cons]
    rfl

/-- The last character of a row of texts is that of one of them. -/
theorem getLast?_intercalate (sep : Text) (hss : ss ≠ []) (h : ∀ s ∈ ss, s ≠ []) :
    ∃ s ∈ ss, (sep.intercalate ss).getLast? = s.getLast? := by
  induction ss with
  | nil => exact absurd rfl hss
  | cons s ss ih =>
    cases ss with
    | nil => exact ⟨s, List.mem_cons_self .., by rw [List.intercalate_singleton]⟩
    | cons s' ss =>
      obtain ⟨last, hlast, heq⟩ :=
        ih (List.cons_ne_nil _ _) fun s hs => h s (List.mem_cons_of_mem _ hs)
      refine ⟨last, List.mem_cons_of_mem _ hlast, ?_⟩
      rw [List.intercalate_cons_cons, List.getLast?_append, heq]
      have hsome : last.getLast?.isSome := by
        simp [h last (List.mem_cons_of_mem _ hlast)]
      rw [Option.or_of_isSome hsome]

end Row

/-! ### Starts and ends -/

/-- A start does not reach past a character that it does not have. -/
theorem afterStart?_append_cons {lead : Text} {b : Char} (hb : b ∉ lead) (t v : Text) :
    afterStart? lead (t ++ b :: v) = (afterStart? lead t).map (· ++ b :: v) := by
  induction lead generalizing t with
  | nil => rfl
  | cons c lead ih =>
    obtain ⟨hc, hlead⟩ : b ≠ c ∧ b ∉ lead := by simpa using hb
    cases t with
    | nil => simp [afterStart?, Ne.symm hc]
    | cons x t =>
      by_cases hx : c = x
      · simpa [afterStart?, hx] using ih hlead t
      · simp [afterStart?, hx]

theorem isSome_afterStart?_iff {lead t : Text} :
    (afterStart? lead t).isSome = true ↔ lead <+: t := by
  rw [Option.isSome_iff_exists]
  exact exists_congr fun rest => afterStart?_eq_some_iff.trans eq_comm

/-- A text that has the last character of a start, which comes only once in it, settles if it
starts so. -/
theorem isSome_afterStart?_append {lead u : Text} {c : Char} (hlead : c ∉ lead) (hu : c ∈ u)
    (w : Text) :
    (afterStart? (lead ++ [c]) (u ++ w)).isSome = (afterStart? (lead ++ [c]) u).isSome := by
  rw [Bool.eq_iff_iff, isSome_afterStart?_iff, isSome_afterStart?_iff]
  refine ⟨fun hprefix => ?_, fun hprefix => hprefix.trans (List.prefix_append u w)⟩
  rcases List.prefix_or_prefix_of_prefix hprefix (List.prefix_append u w) with h | h
  · exact h
  · rcases List.prefix_concat_iff.mp h with rfl | h
    · exact List.prefix_rfl
    · exact absurd (h.subset hu) hlead

/-- **A start is not made by putting a text in front of one that begins as it does**, if its first
character comes only once in it. -/
theorem not_isPrefix_append {c : Char} {lead s t : Text} (hlead : c ∉ lead) (hne : s ≠ [])
    (hs : ¬c :: lead <+: s) (ht : t.head? = some c) : ¬c :: lead <+: s ++ t := by
  obtain ⟨x, s, rfl⟩ := List.exists_cons_of_ne_nil hne
  rw [List.cons_append, List.cons_prefix_cons]
  rintro ⟨rfl, h⟩
  rcases List.prefix_or_prefix_of_prefix h (List.prefix_append s t) with h' | ⟨rest, rfl⟩
  · exact hs (List.cons_prefix_cons.mpr ⟨rfl, h'⟩)
  · -- the start would go on where the second text begins, with its first character again
    have hrest : rest <+: t := (List.prefix_append_right_inj s).mp h
    cases rest with
    | nil => exact hs (by simp)
    | cons d rest =>
      obtain ⟨u, rfl⟩ := hrest
      obtain rfl : d = c := Option.some.inj ht
      exact hlead (List.mem_append_right _ (List.mem_cons_self ..))

theorem getLast?_ne_of_cons {c x : Char} {t : Text} (h : (c :: t).getLast? ≠ some x) :
    t.getLast? ≠ some x := by
  cases t with
  | nil => simp
  | cons d t => rwa [List.getLast?_cons_cons] at h

/-! ### Cuts -/

/-- What is put in front of a row of parts goes to the first of them. -/
theorem consHead_append {ws : List Text} (h : ws ≠ []) (c : Char) (vs : List Text) :
    consHead c (ws ++ vs) = consHead c ws ++ vs := by
  obtain ⟨w, ws, rfl⟩ := List.exists_cons_of_ne_nil h
  rfl

/-- Puts a text in front of the first text of a list. -/
theorem foldr_consHead (s w : Text) (ws : List Text) :
    s.foldr consHead (w :: ws) = (s ++ w) :: ws := by
  induction s with
  | nil => rfl
  | cons c s ih => rw [List.foldr_cons, ih, consHead_cons, List.cons_append]

section Run

variable {p : Char → Bool} {s t : Text} (hs : ∀ c ∈ s, p c = true)
  (ht : ∀ c ∈ t.head?, p c = false)
include hs ht

/-- **A run of characters ends where one follows that does not belong to it.** -/
theorem takeWhile_append_stop : (s ++ t).takeWhile p = s := by
  have hnil : t.takeWhile p = [] := by
    cases t with
    | nil => rfl
    | cons c t => exact List.takeWhile_cons_of_neg (by simp [ht c rfl])
  rw [List.takeWhile_append_of_pos hs, hnil, List.append_nil]

theorem dropWhile_append_stop : (s ++ t).dropWhile p = t := by
  rw [List.dropWhile_append_of_pos hs]
  cases t with
  | nil => rfl
  | cons c t => exact List.dropWhile_cons_of_neg (by simp [ht c rfl])

end Run

/-- A text that does not end as another one has no part in front of it. -/
theorem beforeEnd?_eq_none_iff {tail t : Text} : beforeEnd? tail t = none ↔ ¬tail <:+ t := by
  rw [Option.eq_none_iff_forall_ne_some]
  simp only [ne_eq, beforeEnd?_eq_some_iff]
  exact ⟨fun h ⟨rest, hrest⟩ => h rest hrest.symm, fun h rest hrest => h ⟨rest, hrest.symm⟩⟩

/-- A text is split at a character that it does not have before. -/
theorem splitOnce?_append {c : Char} {s : Text} (h : c ∉ s) (t : Text) :
    splitOnce? c (s ++ c :: t) = some (s, t) := by
  induction s with
  | nil => simp [splitOnce?]
  | cons x s ih =>
    rw [List.mem_cons, not_or] at h
    rw [List.cons_append, splitOnce?, if_neg (Ne.symm h.1), ih h.2, Option.map_some]

theorem splitOnce?_of_not_mem {c : Char} {t : Text} (h : c ∉ t) : splitOnce? c t = none := by
  induction t with
  | nil => rfl
  | cons x t ih =>
    rw [List.mem_cons, not_or] at h
    rw [splitOnce?, if_neg (Ne.symm h.1), ih h.2, Option.map_none]

/-- **A text is split at the first separator.** -/
theorem splitOnce?_of_mem {c : Char} {t : Text} (h : c ∈ t) :
    splitOnce? c t = some (t.takeWhile (· ≠ c), (t.dropWhile (· ≠ c)).tail) := by
  obtain ⟨s, u, rfl, hs⟩ := List.eq_append_cons_of_mem h
  have hbefore : ∀ x ∈ s, decide (x ≠ c) = true := fun x hx =>
    decide_eq_true fun heq => hs (heq ▸ hx)
  have hstop : ∀ x ∈ (c :: u).head?, decide (x ≠ c) = false := by
    intro x hx
    obtain rfl := Option.some.inj hx
    simp
  rw [splitOnce?_append hs, takeWhile_append_stop hbefore hstop,
    dropWhile_append_stop hbefore hstop, List.tail_cons]

/-- A split loses nothing. -/
theorem eq_of_splitOnce? {c : Char} {t before after : Text}
    (h : splitOnce? c t = some (before, after)) : t = before ++ c :: after := by
  by_cases hc : c ∈ t
  · obtain ⟨s, u, rfl, hs⟩ := List.eq_append_cons_of_mem hc
    rw [splitOnce?_append hs] at h
    obtain ⟨rfl, rfl⟩ := Prod.mk.inj (Option.some.inj h)
    rfl
  · simp [splitOnce?_of_not_mem hc] at h

/-- A text without separators is one part. -/
theorem splitAll_of_forall {p : Char → Bool} {s : Text} (h : ∀ c ∈ s, p c = false) :
    splitAll p s = [s] := by
  induction s with
  | nil => rfl
  | cons c s ih =>
    rw [splitAll, if_neg (by simp [h c (List.mem_cons_self ..)]),
      ih fun c hc => h c (List.mem_cons_of_mem _ hc), consHead_cons]

/-- A part ends at the first separator. -/
theorem splitAll_append_cons {p : Char → Bool} {s : Text} (h : ∀ c ∈ s, p c = false) {c : Char}
    (hc : p c = true) (t : Text) : splitAll p (s ++ c :: t) = s :: splitAll p t := by
  induction s with
  | nil => rw [List.nil_append, splitAll, if_pos hc]
  | cons x s ih =>
    rw [List.cons_append, splitAll, if_neg (by simp [h x (List.mem_cons_self ..)]),
      ih fun x hx => h x (List.mem_cons_of_mem _ hx), consHead_cons]

theorem splitAll_ne_nil (p : Char → Bool) (t : Text) : splitAll p t ≠ [] := by
  cases t with
  | nil => exact List.cons_ne_nil _ _
  | cons c t =>
    rw [splitAll]
    split
    · exact List.cons_ne_nil _ _
    · cases splitAll p t <;> exact List.cons_ne_nil _ _

/-- **Words are split at a separator**: those before it come first, then those after it. -/
theorem splitWords_append_cons {p : Char → Bool} {c : Char} (hc : p c = true) (s t : Text) :
    splitWords p (s ++ c :: t) = splitWords p s ++ splitWords p t := by
  have hparts : splitAll p (s ++ c :: t) = splitAll p s ++ splitAll p t := by
    induction s with
    | nil => exact if_pos hc
    | cons x s ih =>
      rw [List.cons_append, splitAll, ih, splitAll]
      split
      · rfl
      · exact consHead_append (splitAll_ne_nil p s) x _
  rw [splitWords, hparts, List.filter_append, splitWords, splitWords]

/-- **A word stands between separators**, or at the ends of the text. -/
theorem mem_splitWords {p : Char → Bool} {s w t : Text} (hne : w ≠ [])
    (hw : ∀ c ∈ w, p c = false) (hs : ∀ c ∈ s.getLast?, p c = true)
    (ht : ∀ c ∈ t.head?, p c = true) : w ∈ splitWords p (s ++ (w ++ t)) := by
  have hword : w ∈ splitWords p w := by
    rw [splitWords, splitAll_of_forall hw]
    simpa using hne
  have hend : w ∈ splitWords p (w ++ t) := by
    cases t with
    | nil => rwa [List.append_nil]
    | cons c t =>
      rw [splitWords_append_cons (ht c rfl)]
      exact List.mem_append_left _ hword
  rcases List.eq_nil_or_concat s with rfl | ⟨s, c, rfl⟩
  · exact hend
  · rw [List.concat_eq_append] at hs ⊢
    rw [List.append_assoc, List.singleton_append,
      splitWords_append_cons (hs c List.getLast?_concat)]
    exact List.mem_append_right _ hend

/-- A text begins with what has no separator, up to the first one. -/
theorem exists_eq_append_of_head? (p : Char → Bool) (t : Text) :
    ∃ w rest, t = w ++ rest ∧ (∀ c ∈ w, p c = false) ∧ ∀ c ∈ rest.head?, p c = true := by
  induction t with
  | nil => exact ⟨[], [], rfl, by simp, by simp⟩
  | cons c t ih =>
    cases hc : p c with
    | true => exact ⟨[], c :: t, rfl, by simp, by simpa using hc⟩
    | false =>
      obtain ⟨w, rest, rfl, hw, hrest⟩ := ih
      exact ⟨c :: w, rest, rfl, by simpa [hc] using hw, hrest⟩

/-- A text ends with what has no separator, from the last one on. -/
theorem exists_eq_append_of_getLast? (p : Char → Bool) (t : Text) :
    ∃ rest w, t = rest ++ w ∧ (∀ c ∈ w, p c = false) ∧ ∀ c ∈ rest.getLast?, p c = true := by
  obtain ⟨w, rest, ht, hw, hrest⟩ := exists_eq_append_of_head? p t.reverse
  refine ⟨rest.reverse, w.reverse, ?_, fun c hc => hw c (List.mem_reverse.mp hc), fun c hc => ?_⟩
  · rw [← List.reverse_append, ← ht, List.reverse_reverse]
  · exact hrest c (by rwa [List.getLast?_reverse] at hc)

/-- **Words end at separators**, however many of them there are. -/
theorem splitWords_append_separators {p : Char → Bool} {gap : Text}
    (hgap : ∀ c ∈ gap, p c = true) (hne : gap ≠ []) (s t : Text) :
    splitWords p (s ++ (gap ++ t)) = splitWords p s ++ splitWords p t := by
  induction gap generalizing s with
  | nil => exact absurd rfl hne
  | cons c gap ih =>
    rw [List.cons_append, splitWords_append_cons (hgap c (List.mem_cons_self ..))]
    cases gap with
    | nil => rfl
    | cons d gap =>
      have hrest := ih (fun x hx => hgap x (List.mem_cons_of_mem _ hx)) (List.cons_ne_nil _ _) []
      rw [← List.nil_append (_ ++ t), hrest]
      rfl

/-- With a character in front of the first of them, parts of a text are parts of a longer text. -/
theorem sublist_of_mem_consHead {c : Char} {t w : Text} {ws : List Text}
    (h : ∀ w ∈ ws, w.Sublist t) (hw : w ∈ consHead c ws) : w.Sublist (c :: t) := by
  cases ws with
  | nil =>
    rw [consHead_nil, List.mem_singleton] at hw
    rw [hw]
    exact (List.nil_sublist t).cons_cons c
  | cons v vs =>
    rcases List.mem_cons.mp hw with rfl | hw
    · exact (h v (List.mem_cons_self ..)).cons_cons c
    · exact (h w (List.mem_cons_of_mem _ hw)).cons c

/-- The same if the character may be a separator, and so belongs to no part. -/
theorem sublist_of_mem_part {P : Prop} [Decidable P] {c : Char} {t w : Text} {ws ws' : List Text}
    (h : ∀ w ∈ ws, w.Sublist t) (h' : ∀ w ∈ ws', w.Sublist t)
    (hw : w ∈ if P then [] :: ws else consHead c ws') : w.Sublist (c :: t) := by
  split at hw
  · rcases List.mem_cons.mp hw with rfl | hw
    · exact List.nil_sublist _
    · exact (h w hw).cons c
  · exact sublist_of_mem_consHead h' hw

theorem trimEndOf_isPrefix (c : Char) (t : Text) : trimEndOf c t <+: t := by
  rw [trimEndOf, ← List.reverse_suffix, List.reverse_reverse]
  exact List.dropWhile_suffix _

/-- Nothing is taken away from the end of a text that ends otherwise. -/
theorem trimEndOf_eq_self {c : Char} {t : Text} (h : t.getLast? ≠ some c) :
    trimEndOf c t = t := by
  rw [← List.head?_reverse] at h
  have hreverse : t.reverse.dropWhile (· == c) = t.reverse := by
    cases ht : t.reverse with
    | nil => rfl
    | cons x u =>
      rw [ht, List.head?_cons] at h
      exact List.dropWhile_cons_of_neg (by simpa using h)
  rw [trimEndOf, hreverse, List.reverse_reverse]

/-! ### Two characters in a row -/

section Pair

variable {a b : Char}

theorem pair_isInfix (a b : Char) (s t : Text) : [a, b] <:+: s ++ a :: b :: t :=
  ⟨s, t, by simp⟩

theorem pair_isInfix_cons_iff {c : Char} {t : Text} :
    [a, b] <:+: c :: t ↔ c = a ∧ t.head? = some b ∨ [a, b] <:+: t := by
  rw [List.infix_cons_iff]
  refine or_congr_left ⟨?_, ?_⟩
  · rintro ⟨u, hu⟩
    obtain ⟨rfl, rfl⟩ := List.cons.inj hu
    exact ⟨rfl, rfl⟩
  · rintro ⟨rfl, hhead⟩
    obtain ⟨u, rfl⟩ := List.head?_eq_some_iff.mp hhead
    exact ⟨u, rfl⟩

/-- **A text is cut where two characters first come in a row.** -/
theorem exists_eq_append_pair {t : Text} (h : [a, b] <:+: t) :
    ∃ s u, t = s ++ a :: b :: u ∧ ¬[a, b] <:+: s := by
  induction t with
  | nil => simp at h
  | cons c t ih =>
    by_cases hfirst : c = a ∧ t.head? = some b
    · obtain ⟨rfl, hhead⟩ := hfirst
      obtain ⟨u, rfl⟩ := List.head?_eq_some_iff.mp hhead
      exact ⟨[], u, rfl, by simp⟩
    · obtain ⟨s, u, rfl, hs⟩ := ih ((pair_isInfix_cons_iff.mp h).resolve_left hfirst)
      refine ⟨c :: s, u, rfl, fun hpair => ?_⟩
      obtain ⟨rfl, hhead⟩ := (pair_isInfix_cons_iff.mp hpair).resolve_right hs
      obtain ⟨s, rfl⟩ := List.head?_eq_some_iff.mp hhead
      exact hfirst ⟨rfl, rfl⟩

/-- From a text that begins with the two characters nothing is cut off in front of the first of
them, but a beginning that has them in a row. -/
theorem eq_nil_of_append_pair (hab : a ≠ b) {s t u : Text} (hs : ¬[a, b] <:+: s)
    (h : s ++ a :: u = a :: b :: t) : s = [] := by
  match s with
  | [] => rfl
  | [c] => exact absurd (List.cons.inj (List.cons.inj h).2).1 hab
  | c :: d :: s =>
    obtain ⟨hc, h⟩ := List.cons.inj h
    obtain ⟨hd, -⟩ := List.cons.inj h
    exact absurd (hc ▸ hd ▸ pair_isInfix c d [] s) hs

/-- **It is cut there in one way only.** -/
theorem eq_of_append_pair (hab : a ≠ b) {s s' t t' : Text} (hs : ¬[a, b] <:+: s)
    (hs' : ¬[a, b] <:+: s') (h : s ++ a :: b :: t = s' ++ a :: b :: t') : s = s' ∧ t = t' := by
  have hpart {u v : Text} (huv : ¬[a, b] <:+: u ++ v) : ¬[a, b] <:+: v := fun hv =>
    huv (hv.trans (List.suffix_append u v).isInfix)
  obtain rfl : s = s' := by
    rcases List.append_eq_append_iff.mp h with ⟨u, rfl, hu⟩ | ⟨u, rfl, hu⟩
    · rw [eq_nil_of_append_pair hab (hpart hs') hu.symm, List.append_nil]
    · rw [eq_nil_of_append_pair hab (hpart hs) hu.symm, List.append_nil]
  have hrest := List.append_cancel_left h
  exact ⟨rfl, (List.cons.inj (List.cons.inj hrest).2).2⟩

end Pair

end CssResources
