import CssResources.Text.Nesting

/-!
# What quotes and brackets enclose

Where a separator counts depends on the quotes and brackets around it. This file says which
characters of a text stand outside quotes (`CssResources.unquoted`) and outside brackets
(`CssResources.Brackets.outside`), and when a text leaves neither open
(`CssResources.quoteAtEnd`, `CssResources.Brackets.IsBalanced`). Which characters are brackets
is a parameter (`CssResources.Brackets`).

All of this goes through a text in pieces: what one piece leaves open, the next one begins with.
A text that closes what it opens can be read **as if nothing stood before it**. Whether its
brackets are balanced can also be told by counting them, in the text and in its beginnings
(`CssResources.IsNested`, `CssResources.Brackets.isBalanced_iff_isNested`).
-/

namespace CssResources

/-! ### Quotes -/

/-- The quote open at the end of a text. -/
def quoteAtEnd (quote : Option Char) (t : Text) : Option Char := t.foldl quoteAfter quote

/-- **The characters of a text outside quotes.** A mark that opens a quote is one of them, and
the mark that closes it is not. -/
def unquoted (quote : Option Char) : Text → Text
  | [] => []
  | c :: t =>
    if quote.isSome then unquoted (quoteAfter quote c) t else c :: unquoted (quoteAfter quote c) t

@[simp] theorem quoteAtEnd_nil (quote : Option Char) : quoteAtEnd quote [] = quote := rfl

@[simp] theorem quoteAtEnd_cons (quote : Option Char) (c : Char) (t : Text) :
    quoteAtEnd quote (c :: t) = quoteAtEnd (quoteAfter quote c) t := rfl

theorem quoteAtEnd_append (quote : Option Char) (s t : Text) :
    quoteAtEnd quote (s ++ t) = quoteAtEnd (quoteAtEnd quote s) t :=
  List.foldl_append

@[simp] theorem unquoted_nil (quote : Option Char) : unquoted quote [] = [] := rfl

@[simp] theorem unquoted_none_cons (c : Char) (t : Text) :
    unquoted none (c :: t) = c :: unquoted (quoteAfter none c) t := rfl

@[simp] theorem unquoted_some_cons (q c : Char) (t : Text) :
    unquoted (some q) (c :: t) = unquoted (quoteAfter (some q) c) t := rfl

/-- What stands outside quotes after a character stands outside quotes. -/
theorem mem_unquoted_cons_of_mem {quote : Option Char} {c x : Char} {t : Text}
    (h : c ∈ unquoted (quoteAfter quote x) t) : c ∈ unquoted quote (x :: t) := by
  cases quote with
  | none => exact List.mem_cons_of_mem x h
  | some q => exact h

theorem unquoted_append (quote : Option Char) (s t : Text) :
    unquoted quote (s ++ t) = unquoted quote s ++ unquoted (quoteAtEnd quote s) t := by
  induction s generalizing quote with
  | nil => rfl
  | cons c s ih =>
    cases quote with
    | none => simp [ih]
    | some q => simp [ih]

/-- The characters outside quotes are characters of the text. -/
theorem unquoted_sublist (quote : Option Char) (t : Text) : (unquoted quote t).Sublist t := by
  induction t generalizing quote with
  | nil => exact List.Sublist.refl _
  | cons c t ih =>
    cases quote with
    | none => exact (ih _).cons_cons c
    | some q => exact (ih _).cons c

/-- A text without quotes opens none. -/
theorem quoteAtEnd_of_not_mem {t : Text} (hdouble : '"' ∉ t) (hsingle : '\'' ∉ t) :
    quoteAtEnd none t = none := by
  induction t with
  | nil => rfl
  | cons c t ih =>
    rw [List.mem_cons, not_or] at hdouble hsingle
    have hc : quoteAfter none c = none := by
      simp [quoteAfter, Ne.symm hdouble.1, Ne.symm hsingle.1]
    rw [quoteAtEnd_cons, hc, ih hdouble.2 hsingle.2]

/-- A quote is open only from one of the two marks on. -/
theorem quoteAfter_ne_some {quote : Option Char} {q : Char} (hq : quote ≠ some q)
    (hdouble : q ≠ '"') (hsingle : q ≠ '\'') (c : Char) : quoteAfter quote c ≠ some q := by
  cases quote with
  | none =>
    rw [quoteAfter]
    split
    · rintro hc
      obtain rfl := Option.some.inj hc
      simp_all
    · simp
  | some q' =>
    rw [quoteAfter_some]
    split
    · simp
    · exact hq

theorem quoteAtEnd_ne_some {quote : Option Char} {q : Char} (hq : quote ≠ some q)
    (hdouble : q ≠ '"') (hsingle : q ≠ '\'') (t : Text) : quoteAtEnd quote t ≠ some q := by
  induction t generalizing quote with
  | nil => exact hq
  | cons c t ih => exact ih (quoteAfter_ne_some hq hdouble hsingle c)

/-- A quote stays open where its mark does not stand. -/
theorem quoteAtEnd_some_of_not_mem {q : Char} {t : Text} (h : q ∉ t) :
    quoteAtEnd (some q) t = some q := by
  induction t with
  | nil => rfl
  | cons c t ih =>
    rw [List.mem_cons, not_or] at h
    rw [quoteAtEnd_cons, quoteAfter_some, if_neg (Ne.symm h.1), ih h.2]

/-- **What comes before a text without quotes closes its quotes**, if they are closed after it. -/
theorem quoteAtEnd_eq_none_of_append {s t : Text} (h : quoteAtEnd none (s ++ t) = none)
    (hdouble : '"' ∉ t) (hsingle : '\'' ∉ t) : quoteAtEnd none s = none := by
  rw [quoteAtEnd_append] at h
  cases hs : quoteAtEnd none s with
  | none => rfl
  | some q =>
    have hq : q ∉ t := fun hmem =>
      quoteAtEnd_ne_some (by simp) (fun hc => hdouble (hc ▸ hmem)) (fun hc => hsingle (hc ▸ hmem))
        s hs
    rw [hs, quoteAtEnd_some_of_not_mem hq] at h
    exact absurd h (by simp)

/-! ### Brackets -/

/-- **A kind of brackets**: the characters that open them, and those that close them. -/
structure Brackets where
  /-- The characters that open a bracket. -/
  opens : Text
  /-- The characters that close one. -/
  closes : Text

namespace Brackets

/-- Parentheses. -/
def parens : Brackets := ⟨['('], [')']⟩

/-- Parentheses and square brackets, which are counted together. -/
def roundAndSquare : Brackets := ⟨['(', '['], [')', ']']⟩

/-- Braces. -/
def braces : Brackets := ⟨['{'], ['}']⟩

/-- The number of open brackets after one more character, unless it closes one that is not
open. -/
def after? (b : Brackets) (depth : Nat) (c : Char) : Option Nat :=
  if c ∈ b.opens then some (depth + 1)
  else if c ∈ b.closes then (if depth = 0 then none else some (depth - 1))
  else some depth

/-- The number of open brackets at the end of a text, unless one is closed that is not open. -/
def depthAtEnd? (b : Brackets) (depth : Nat) (t : Text) : Option Nat := t.foldlM b.after? depth

/-- **The brackets of a text are balanced.** -/
def IsBalanced (b : Brackets) (t : Text) : Prop := b.depthAtEnd? 0 t = some 0

instance (b : Brackets) (t : Text) : Decidable (b.IsBalanced t) :=
  inferInstanceAs (Decidable (_ = _))

/-- **The characters of a text outside brackets.** A bracket that opens is one of them, and the
one that closes it is not. -/
def outside (b : Brackets) : Nat → Text → Text
  | _, [] => []
  | depth, c :: t =>
    (if depth = 0 then [c] else []) ++ b.outside ((b.after? depth c).getD 0) t

variable (b : Brackets)

@[simp] theorem depthAtEnd?_nil (depth : Nat) : b.depthAtEnd? depth [] = some depth := rfl

@[simp] theorem depthAtEnd?_cons (depth : Nat) (c : Char) (t : Text) :
    b.depthAtEnd? depth (c :: t) = (b.after? depth c).bind (b.depthAtEnd? · t) :=
  List.foldlM_cons

theorem depthAtEnd?_append (depth : Nat) (s t : Text) :
    b.depthAtEnd? depth (s ++ t) = (b.depthAtEnd? depth s).bind (b.depthAtEnd? · t) :=
  List.foldlM_append

@[simp] theorem outside_nil (depth : Nat) : b.outside depth [] = [] := rfl

theorem outside_cons {depth depth' : Nat} {c : Char} (h : b.after? depth c = some depth')
    (t : Text) :
    b.outside depth (c :: t) = (if depth = 0 then [c] else []) ++ b.outside depth' t := by
  rw [outside, h, Option.getD_some]

/-- **The characters outside brackets, piece by piece.** -/
theorem outside_append {depth depth' : Nat} {s : Text} (h : b.depthAtEnd? depth s = some depth')
    (t : Text) : b.outside depth (s ++ t) = b.outside depth s ++ b.outside depth' t := by
  induction s generalizing depth with
  | nil =>
    obtain rfl := Option.some.inj h
    rfl
  | cons c s ih =>
    rw [depthAtEnd?_cons] at h
    obtain ⟨d, hd, h⟩ := Option.bind_eq_some_iff.mp h
    rw [List.cons_append, outside_cons b hd, ih h, outside_cons b hd, List.append_assoc]

/-- The characters outside brackets are characters of the text. -/
theorem outside_sublist (depth : Nat) (t : Text) : (b.outside depth t).Sublist t := by
  induction t generalizing depth with
  | nil => exact List.Sublist.refl _
  | cons c t ih =>
    rw [outside]
    split
    · exact (ih _).cons_cons c
    · exact (ih _).cons c

variable {b}

/-- A text without brackets opens and closes none. -/
theorem depthAtEnd?_of_not_mem {t : Text} (h : ∀ c ∈ t, c ∉ b.opens ∧ c ∉ b.closes)
    (depth : Nat) : b.depthAtEnd? depth t = some depth := by
  induction t with
  | nil => rfl
  | cons c t ih =>
    obtain ⟨hopens, hcloses⟩ := h c (List.mem_cons_self ..)
    have hc : b.after? depth c = some depth := by rw [after?, if_neg hopens, if_neg hcloses]
    rw [depthAtEnd?_cons, hc, Option.bind_some, ih fun c hc => h c (List.mem_cons_of_mem _ hc)]

/-- Where no bracket opens, no more are open at the end. -/
theorem depthAtEnd?_le {depth depth' : Nat} {t : Text} (ht : ∀ c ∈ t, c ∉ b.opens)
    (h : b.depthAtEnd? depth t = some depth') : depth' ≤ depth := by
  induction t generalizing depth with
  | nil => exact Nat.le_of_eq (Option.some.inj h).symm
  | cons c t ih =>
    rw [depthAtEnd?_cons] at h
    obtain ⟨d, hd, h⟩ := Option.bind_eq_some_iff.mp h
    have hc : d ≤ depth := by
      rw [after?, if_neg (ht c (List.mem_cons_self ..))] at hd
      grind
    exact Nat.le_trans (ih (fun c hc => ht c (List.mem_cons_of_mem _ hc)) h) hc

/-- A text has no brackets of a kind with one mark for each side if it has neither mark. -/
theorem not_mem_of_pair {opening closing : Char} {t : Text} (hopening : opening ∉ t)
    (hclosing : closing ∉ t) :
    ∀ c ∈ t, c ∉ (Brackets.mk [opening] [closing]).opens ∧
      c ∉ (Brackets.mk [opening] [closing]).closes := fun _ hc =>
  ⟨fun h => hopening (List.mem_singleton.mp h ▸ hc),
    fun h => hclosing (List.mem_singleton.mp h ▸ hc)⟩

/-- More brackets that are open stay open. -/
theorem after?_add {depth depth' : Nat} {c : Char} (h : b.after? depth c = some depth')
    (k : Nat) : b.after? (depth + k) c = some (depth' + k) := by
  rw [after?] at h ⊢
  split at h
  · rename_i hopens
    obtain rfl := Option.some.inj h
    rw [if_pos hopens, Nat.add_right_comm]
  · rename_i hopens
    rw [if_neg hopens]
    split at h
    · rename_i hcloses
      split at h
      · simp at h
      · obtain rfl := Option.some.inj h
        rw [if_pos hcloses, if_neg (by omega), Nat.sub_add_comm (by omega)]
    · rename_i hcloses
      obtain rfl := Option.some.inj h
      rw [if_neg hcloses]

/-- **A text passes over the brackets that are open before it**, if it closes none that it does
not open. -/
theorem depthAtEnd?_add {depth depth' : Nat} {t : Text} (h : b.depthAtEnd? depth t = some depth')
    (k : Nat) : b.depthAtEnd? (depth + k) t = some (depth' + k) := by
  induction t generalizing depth with
  | nil =>
    obtain rfl := Option.some.inj h
    rfl
  | cons c t ih =>
    rw [depthAtEnd?_cons] at h
    obtain ⟨d, hd, h⟩ := Option.bind_eq_some_iff.mp h
    rw [depthAtEnd?_cons, after?_add hd k, Option.bind_some, ih h]

/-- **Balanced texts in a row are balanced.** -/
theorem IsBalanced.append {s t : Text} (hs : b.IsBalanced s) (ht : b.IsBalanced t) :
    b.IsBalanced (s ++ t) := by
  rw [IsBalanced, depthAtEnd?_append, hs, Option.bind_some, ht]

/-- What comes before a text without brackets is balanced, if both are together. -/
theorem IsBalanced.of_append {s t : Text} (h : b.IsBalanced (s ++ t))
    (ht : ∀ c ∈ t, c ∉ b.opens ∧ c ∉ b.closes) : b.IsBalanced s := by
  rw [IsBalanced, depthAtEnd?_append] at h
  obtain ⟨depth, hdepth, hend⟩ := Option.bind_eq_some_iff.mp h
  rw [depthAtEnd?_of_not_mem ht] at hend
  rw [IsBalanced, hdepth, hend]

/-- Where parentheses close what they open, the number of those that are open is counted. -/
theorem depthAfter_of_after? {depth depth' : Nat} {c : Char}
    (h : parens.after? depth c = some depth') : depthAfter depth c = depth' := by
  simp only [after?, parens, List.mem_singleton] at h
  rw [depthAfter]
  grind

/-- Where a parenthesis closes none, the count stays at zero. -/
theorem getD_after? (depth : Nat) (c : Char) :
    (parens.after? depth c).getD 0 = depthAfter depth c := by
  cases h : parens.after? depth c with
  | some depth' => rw [depthAfter_of_after? h, Option.getD_some]
  | none =>
    simp only [after?, parens, List.mem_singleton] at h
    rw [depthAfter]
    grind

end Brackets

/-! ### Marks that are counted -/

/-- **One mark opens and another one closes**, each time: both come equally often, and in no
beginning of the text has the second one come more often. -/
structure IsNested (opening closing : Char) (t : Text) : Prop where
  /-- All that is opened is closed. -/
  total : t.count opening = t.count closing
  /-- Nothing is closed before it is opened. -/
  beginning : ∀ s, s <+: t → s.count closing ≤ s.count opening

namespace Brackets

variable {opening closing : Char}

/-- What holds of the beginnings of a text, by its first character. -/
theorem forall_prefix_cons {P : Text → Prop} {c : Char} {t : Text} :
    (∀ s, s <+: c :: t → P s) ↔ P [] ∧ ∀ s, s <+: t → P (c :: s) := by
  constructor
  · exact fun h => ⟨h [] List.nil_prefix, fun s hs => h _ (List.cons_prefix_cons.mpr ⟨rfl, hs⟩)⟩
  · rintro ⟨hnil, hcons⟩ s hs
    rcases List.prefix_cons_iff.mp hs with rfl | ⟨u, rfl, hu⟩
    · exact hnil
    · exact hcons u hu

/-- **The number of open brackets is counted by their marks**: those before the text, and as many
as its beginnings leave open. -/
theorem depthAtEnd?_eq_some_iff (hne : opening ≠ closing) {depth depth' : Nat} {t : Text} :
    (Brackets.mk [opening] [closing]).depthAtEnd? depth t = some depth' ↔
      depth + t.count opening = depth' + t.count closing ∧
        ∀ s, s <+: t → s.count closing ≤ depth + s.count opening := by
  induction t generalizing depth with
  | nil => simp
  | cons c t ih =>
    rw [depthAtEnd?_cons, forall_prefix_cons]
    simp only [after?, List.mem_singleton, List.count_cons, List.count_nil, beq_iff_eq,
      Nat.zero_le, true_and]
    rcases Decidable.em (c = opening) with rfl | hopening
    · -- one more is open, before the rest and each of its beginnings
      rw [if_pos rfl, Option.bind_some, ih]
      simp only [if_true, if_neg hne, Nat.add_zero, Nat.add_assoc, Nat.add_comm 1]
    rw [if_neg hopening]
    rcases Decidable.em (c = closing) with rfl | hclosing
    · cases depth with
      | zero =>
        -- the mark alone closes what is not open
        simp only [if_true, if_neg hopening, Option.bind_none, reduceCtorEq, false_iff, not_and]
        exact fun _ h => absurd (h [] List.nil_prefix) (by simp)
      | succ depth =>
        simp only [if_true, if_neg hopening, Nat.succ_ne_zero, if_false, Option.bind_some,
          Nat.add_sub_cancel, ih]
        exact and_congr (by omega) (forall₂_congr fun s _ => by omega)
    · rw [if_neg hclosing, Option.bind_some, ih]
      simp only [if_neg hopening, if_neg hclosing, Nat.add_zero]

/-- **Brackets are balanced exactly if their marks are nested.** -/
theorem isBalanced_iff_isNested (hne : opening ≠ closing) {t : Text} :
    (Brackets.mk [opening] [closing]).IsBalanced t ↔ IsNested opening closing t := by
  rw [IsBalanced, depthAtEnd?_eq_some_iff hne]
  simp only [Nat.zero_add]
  exact ⟨fun h => ⟨h.1, h.2⟩, fun h => ⟨h.total, h.beginning⟩⟩

end Brackets

end CssResources
