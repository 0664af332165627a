import CssResources.Proofs.Checked
import CssResources.Proofs.Variable.Spelling

/-!
# References by their offsets

A reference can be found by **offsets alone**: a count of open parentheses goes through what
follows its opening, up to the one that closes the reference (`CssResources.closingOffset`), and
only then the text is cut, at the offsets that were met (`CssResources.cutAtOffsets`). Such a cut
may be impossible, in the middle of a character or beyond the end, and so may be one step more of
the count, below zero.

None of it ever happens. What is found by offsets is what is read in pieces:

| by offsets | in pieces |
|---|---|
| `CssResources.closingOffset` | `CssResources.closingParen?` |
| `CssResources.referenceTail` | `CssResources.closing?` |
| `CssResources.cutAtOffsets` | `CssResources.firstReference?` |

The count stops at zero for the first time after **a text whose parentheses are nested**, and
nowhere else (`CssResources.depthAtEnd?_of_closingParen?`), so the fallback of a reference is known
from its text (`CssResources.referenceTail_matches`).
-/

namespace CssResources

/-! ### The parenthesis that closes a reference -/

/-- The offset of the parenthesis that closes the one already open, if the text begins at an
offset and further parentheses are open. -/
def closingOffset (depth offset : Nat) : Text → Except Fault (Option Nat)
  | [] => return none
  | c :: t =>
    let next := offset + c.utf8Size
    if c = '(' then closingOffset (depth + 1) next t
    else if c = ')' then
      if depth = 0 then return some offset
      else do
        let depth ← predecessor depth
        closingOffset depth next t
    else closingOffset depth next t

/-- **The closing parenthesis stands behind what it closes.** -/
theorem closingOffset_eq (depth offset : Nat) (t : Text) :
    closingOffset depth offset t =
      .ok ((closingParen? depth t).map fun p => offset + utf8Size p.1) := by
  induction t generalizing depth offset with
  | nil => rw [closingParen?_nil]; rfl
  | cons c t ih =>
    have hrest (d : Nat) : (((closingParen? d t).map fun p => (c :: p.1, p.2)).map
          fun p => offset + utf8Size p.1) =
        (closingParen? d t).map fun p => offset + c.utf8Size + utf8Size p.1 := by
      rw [Option.map_map]
      simp only [Function.comp_def, utf8Size_cons, Nat.add_assoc]
    rw [closingOffset, closingParen?, depthAfter]
    rcases Decidable.em (c = '(') with rfl | hopening
    · rw [if_pos rfl, if_neg (by simp), if_pos rfl, hrest, ih]
    rw [if_neg hopening, if_neg hopening]
    rcases Decidable.em (c = ')') with rfl | hclosing
    · rcases Decidable.em (depth = 0) with rfl | hdepth
      · rfl
      · rw [if_pos rfl, if_neg hdepth, if_neg (by simp [hdepth]), if_pos rfl, hrest,
          predecessor_of_ne_zero hdepth]
        exact ih (depth - 1) _
    · rw [if_neg hclosing, if_neg (by simp [hclosing]), if_neg hclosing, hrest, ih]

/-- **Where the closing of a reference is found, no parenthesis is open.** -/
theorem depthAtEnd?_of_closingParen? {depth : Nat} {t : Text} {p : Text × Text}
    (h : closingParen? depth t = some p) : Brackets.parens.depthAtEnd? depth p.1 = some 0 := by
  induction t generalizing depth p with
  | nil => simp at h
  | cons c t ih =>
    rw [closingParen?] at h
    split at h
    · rename_i hc
      obtain rfl := Option.some.inj h
      exact congrArg some hc.2
    · rename_i hc
      obtain ⟨q, hq, rfl⟩ := Option.map_eq_some_iff.mp h
      -- no parenthesis is closed that is not open, as the search would end there
      have hafter : Brackets.parens.after? depth c = some (depthAfter depth c) := by
        simp only [Brackets.after?, Brackets.parens, List.mem_singleton, depthAfter]
        grind
      rw [Brackets.depthAtEnd?_cons, hafter, Option.bind_some, ih hq]

/-! ### The tail of a reference -/

/-- **The tail of a reference**, up to its closing parenthesis: its fallback, if it has one, and its
size. -/
def referenceTail (after : Text) : Except Fault (Option (Option Text × Nat)) :=
  match after with
  | ')' :: _ => return some (none, 1)
  | ',' :: _ => do
    match ← closingOffset 0 0 after with
    | none => return none
    | some offset =>
      let fallback ← slice 1 offset after
      return some (some fallback, offset + 1)
  | _ => return none

/-- **The tail of a reference is its closing.** -/
theorem referenceTail_eq (after : Text) :
    referenceTail after =
      .ok ((closing? after).map fun d => (d.fallback?, utf8Size d.written)) := by
  unfold referenceTail
  split
  · rfl
  · rename_i t
    have hcomma : closingParen? 0 (',' :: t) =
        (closingParen? 0 t).map fun p => (',' :: p.1, p.2) := by
      rw [closingParen?, if_neg (by simp)]
      rfl
    have hclosing : closing? (',' :: t) = (closingParen? 0 t).map fun p =>
        { written := ',' :: p.1 ++ [')'], fallback? := some p.1, rest := p.2 } := rfl
    rw [closingOffset_eq, hcomma, hclosing]
    cases hp : closingParen? 0 t with
    | none => rfl
    | some p =>
      have hslice : slice 1 (0 + utf8Size (',' :: p.1)) (',' :: t) = .ok p.1 := by
        rw [Nat.zero_add, eq_of_closingParen? hp]
        exact slice_append [','] p.1 _
      have hsize : utf8Size (',' :: p.1 ++ [')']) = 0 + utf8Size (',' :: p.1) + 1 := by
        rw [utf8Size_append, Nat.zero_add]
        rfl
      simp only [Option.map_some, ok_bind, hslice, hsize]
      rfl
  · rename_i hparen hcomma
    unfold closing?
    split
    · exact absurd rfl (hparen _)
    · exact absurd rfl (hcomma _)
    · rfl

theorem referenceTail_eq_ok_iff {after : Text} {r : Option (Option Text × Nat)} :
    referenceTail after = .ok r ↔
      (closing? after).map (fun d => (d.fallback?, utf8Size d.written)) = r := by
  rw [referenceTail_eq]
  exact ⟨Except.ok.inj, congrArg Except.ok⟩

theorem referenceTail_eq_some_iff {after : Text} {fallback? : Option Text} {size : Nat} :
    referenceTail after = .ok (some (fallback?, size)) ↔
      ∃ d, closing? after = some d ∧ d.fallback? = fallback? ∧ utf8Size d.written = size := by
  rw [referenceTail_eq_ok_iff, Option.map_eq_some_iff]
  simp only [Prod.mk.injEq]

/-- **The fallback of a closing is balanced.** -/
theorem isBalanced_fallback {t fallback : Text} {d : Closing} (h : closing? t = some d)
    (hf : d.fallback? = some fallback) : Brackets.parens.IsBalanced fallback := by
  unfold closing? at h
  split at h
  · obtain rfl := Option.some.inj h
    simp at hf
  · obtain ⟨p, hp, rfl⟩ := Option.map_eq_some_iff.mp h
    obtain rfl : p.1 = fallback := by simpa using hf
    exact depthAtEnd?_of_closingParen? hp
  · simp at h

/-- **A closing with a fallback is a comma, a text with nested parentheses, and one parenthesis
more.** -/
theorem exists_closing?_fallback_iff {t fallback : Text} :
    (∃ d, closing? t = some d ∧ d.fallback? = some fallback) ↔
      IsNested '(' ')' fallback ∧ ∃ rest, t = ',' :: (fallback ++ ')' :: rest) := by
  rw [← Brackets.isBalanced_iff_isNested (by decide)]
  constructor
  · rintro ⟨d, h, hf⟩
    refine ⟨isBalanced_fallback h hf, d.rest, ?_⟩
    rw [eq_of_closing? h, eq_fallback_of_closing? h hf]
    simp
  · rintro ⟨hbalanced, rest, rfl⟩
    exact ⟨_, closing?_fallback hbalanced rest, rfl⟩

/-- A closing without a fallback is one parenthesis. -/
theorem written_of_closing?_none {t : Text} {d : Closing} (h : closing? t = some d)
    (hf : d.fallback? = none) : d.written = [')'] := by
  unfold closing? at h
  split at h
  · obtain rfl := Option.some.inj h
    rfl
  · obtain ⟨p, -, rfl⟩ := Option.map_eq_some_iff.mp h
    simp at hf
  · simp at h

theorem exists_closing?_none_iff {t : Text} :
    (∃ d, closing? t = some d ∧ d.fallback? = none) ↔ ∃ rest, t = ')' :: rest := by
  constructor
  · rintro ⟨d, h, hf⟩
    refine ⟨d.rest, ?_⟩
    rw [eq_of_closing? h, written_of_closing?_none h hf, List.singleton_append]
  · rintro ⟨rest, rfl⟩
    exact ⟨_, rfl, rfl⟩

/-- **A text begins with no closing exactly if it begins with neither of the two.** -/
theorem closing?_eq_none_iff {t : Text} :
    closing? t = none ↔
      (¬∃ rest, t = ')' :: rest) ∧
        ¬∃ fallback rest, IsNested '(' ')' fallback ∧ t = ',' :: (fallback ++ ')' :: rest) := by
  constructor
  · intro hnone
    refine ⟨fun hparen => ?_, fun ⟨fallback, rest, hnested, ht⟩ => ?_⟩
    · obtain ⟨d, hd, -⟩ := exists_closing?_none_iff.mpr hparen
      simp [hnone] at hd
    · obtain ⟨d, hd, -⟩ := exists_closing?_fallback_iff.mpr ⟨hnested, rest, ht⟩
      simp [hnone] at hd
  · rintro ⟨hparen, hcomma⟩
    rw [Option.eq_none_iff_forall_ne_some]
    intro d hd
    cases hf : d.fallback? with
    | none => exact hparen (exists_closing?_none_iff.mp ⟨d, hd, hf⟩)
    | some fallback =>
      obtain ⟨hnested, rest, ht⟩ := exists_closing?_fallback_iff.mp ⟨d, hd, hf⟩
      exact hcomma ⟨fallback, rest, hnested, ht⟩

/-! ### References cut out at offsets -/

/-- **A text cut at its first reference**, with each part of it taken at its offsets. -/
def cutAtOffsets (t : Text) : Except Fault (Option Cut) :=
  match firstOpening? t with
  | none => return none
  | some (before, o) => do
    let start := utf8Size before
    let stop := start + utf8Size o.written
    let after ← textFrom stop t
    match ← referenceTail after with
    | none => return none
    | some (fallback?, consumed) =>
      let before ← slice 0 start t
      let written ← slice start (stop + consumed) t
      let after ← textFrom consumed after
      return some { before, reference := { name := o.name, fallback?, written }, after }

/-- **All offsets of a reference are offsets of the text**, and what they cut out is read there. -/
theorem cutAtOffsets_eq (t : Text) : cutAtOffsets t = .ok (firstReference? t) := by
  unfold cutAtOffsets firstReference?
  cases ho : firstOpening? t with
  | none => rfl
  | some p =>
    obtain ⟨before, o⟩ := p
    have ht := eq_of_firstOpening? ho
    have hafter : textFrom (utf8Size before + utf8Size o.written) t = .ok o.rest := by
      rw [ht, ← utf8Size_append, ← List.append_assoc]
      exact textFrom_append (before ++ o.written) o.rest
    cases hd : closing? o.rest with
    | none =>
      simp only [Option.bind_some, hafter, ok_bind, referenceTail_eq, hd, Option.map_none]
      rfl
    | some d =>
      have hrest := eq_of_closing? hd
      have hbefore : slice 0 (utf8Size before) t = .ok before := by
        rw [ht]
        exact slice_zero_append before _
      have hwritten : slice (utf8Size before)
          (utf8Size before + utf8Size o.written + utf8Size d.written) t =
            .ok (o.written ++ d.written) := by
        rw [ht, hrest, ← List.append_assoc o.written, Nat.add_assoc, ← utf8Size_append,
          ← utf8Size_append]
        exact slice_append before (o.written ++ d.written) d.rest
      have hend : textFrom (utf8Size d.written) o.rest = .ok d.rest := by
        rw [hrest]
        exact textFrom_append d.written d.rest
      simp only [Option.bind_some, hafter, ok_bind, referenceTail_eq, hd, Option.map_some, hbefore,
        hwritten, hend]
      rfl

/-- **A text is read along its cuts**, and what is left after a cut is shorter. -/
theorem ofText_cutAtOffsets (t : Text) :
    (cutAtOffsets t = .ok none ∧ Piece.ofText t = [.literal t]) ∨
      ∃ c, cutAtOffsets t = .ok (some c) ∧ c.after.length < t.length ∧
        Piece.ofText t = .literal c.before :: .reference c.reference :: Piece.ofText c.after := by
  rw [cutAtOffsets_eq]
  cases hc : firstReference? t with
  | none => exact .inl ⟨rfl, Piece.ofText_of_none hc⟩
  | some c => exact .inr ⟨c, rfl, length_after_lt hc, Piece.ofText_of_some hc⟩

/-- **The tail of a reference ends at the matching parenthesis.** There is a fallback exactly if the
tail is a comma, a text with nested parentheses, and a parenthesis; there is none exactly if the
tail is a parenthesis; and anything else is no tail. So references are cut out at offsets that
their text has, and what is left to be read gets shorter. -/
theorem referenceTail_matches (after : Text) :
    (∀ fallback size,
      referenceTail after = .ok (some (some fallback, size)) ↔
        IsNested '(' ')' fallback ∧ size = utf8Size (',' :: (fallback ++ [')'])) ∧
          ∃ rest, after = ',' :: (fallback ++ ')' :: rest)) ∧
    (∀ size, referenceTail after = .ok (some (none, size)) ↔
      size = 1 ∧ ∃ rest, after = ')' :: rest) ∧
    (referenceTail after = .ok none ↔
      (¬∃ rest, after = ')' :: rest) ∧
        ¬∃ fallback rest, IsNested '(' ')' fallback ∧ after = ',' :: (fallback ++ ')' :: rest)) ∧
    ∀ t, (cutAtOffsets t = .ok none ∧ Piece.ofText t = [.literal t]) ∨
      ∃ c, cutAtOffsets t = .ok (some c) ∧ c.after.length < t.length ∧
        Piece.ofText t = .literal c.before :: .reference c.reference :: Piece.ofText c.after := by
  refine ⟨fun fallback size => referenceTail_eq_some_iff.trans ⟨?_, ?_⟩,
    fun size => referenceTail_eq_some_iff.trans ⟨?_, ?_⟩, ?_, ofText_cutAtOffsets⟩
  · rintro ⟨d, hd, hf, rfl⟩
    obtain ⟨hnested, hrest⟩ := exists_closing?_fallback_iff.mp ⟨d, hd, hf⟩
    exact ⟨hnested, by rw [eq_fallback_of_closing? hd hf, List.cons_append], hrest⟩
  · rintro ⟨hnested, rfl, hrest⟩
    obtain ⟨d, hd, hf⟩ := exists_closing?_fallback_iff.mpr ⟨hnested, hrest⟩
    exact ⟨d, hd, hf, by rw [eq_fallback_of_closing? hd hf, List.cons_append]⟩
  · rintro ⟨d, hd, hf, rfl⟩
    rw [written_of_closing?_none hd hf]
    exact ⟨rfl, exists_closing?_none_iff.mp ⟨d, hd, hf⟩⟩
  · rintro ⟨rfl, hrest⟩
    obtain ⟨d, hd, hf⟩ := exists_closing?_none_iff.mpr hrest
    exact ⟨d, hd, hf, by rw [written_of_closing?_none hd hf]; rfl⟩
  · rw [referenceTail_eq_ok_iff, Option.map_eq_none_iff, closing?_eq_none_iff]

example : referenceTail ",é(x)) r".toList = .ok (some (some "é(x)".toList, 7)) := by rfl

end CssResources
