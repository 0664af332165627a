import CssResources.Proofs.Text.Blank
import CssResources.Proofs.Text.Parts
import CssResources.Proofs.Variable.Substitution

/-!
# The properties that a text mentions

`CssResources.Mentions t m` says that a reference to `m` occurs in `t`: it is one of the
references that `t` is cut at, or it occurs in the fallback of one of them. This is the
edge relation of the graph of references: a property leads to the properties that its
value mentions (`CssResources.LeadsTo`).

A value is trimmed before it is expanded. That changes none of its references, as a
reference begins with a letter and ends with a parenthesis
(`CssResources.firstReference?_blank_append`, `CssResources.firstReference?_append_blank`),
so that a property may be said to mention what its value mentions **as it is written**.

An expansion goes from a text to the sources of its references, and keeps a chain of the
properties on the way. What is true of each property of the chain and all that the text
mentions goes along (`CssResources.ChainRelates.source`, `CssResources.ChainRelates.after`).
-/

namespace CssResources

/-- **A reference to a property occurs in a text**, be it in a fallback. -/
inductive Mentions : Text → Text → Prop where
  /-- The first reference names the property. -/
  | first {t : Text} {c : Cut} (h : firstReference? t = some c) : Mentions t c.reference.name
  /-- The fallback of the first reference mentions the property. -/
  | fallback {t f m : Text} {c : Cut} (h : firstReference? t = some c)
      (hf : c.reference.fallback? = some f) (hm : Mentions f m) : Mentions t m
  /-- The text after the first reference mentions the property. -/
  | after {t m : Text} {c : Cut} (h : firstReference? t = some c) (hm : Mentions c.after m) :
      Mentions t m

/-- A text without a first reference mentions nothing. -/
theorem not_mentions_of_none {t : Text} (h : firstReference? t = none) (m : Text) :
    ¬Mentions t m := by
  intro hm
  cases hm with
  | first hc => simp [h] at hc
  | fallback hc => simp [h] at hc
  | after hc => simp [h] at hc

@[simp] theorem not_mentions_nil (m : Text) : ¬Mentions [] m := not_mentions_of_none rfl m

/-- **What a text with a first reference mentions**: the property that the reference names, what
its fallback mentions, and what the text after it mentions. -/
theorem mentions_iff_of_some {t : Text} {c : Cut} (h : firstReference? t = some c) (m : Text) :
    Mentions t m ↔ m = c.reference.name ∨
      (∃ f, c.reference.fallback? = some f ∧ Mentions f m) ∨ Mentions c.after m := by
  refine ⟨fun hm => ?_, ?_⟩
  · cases hm with
    | first hc =>
      obtain rfl := Option.some.inj (h.symm.trans hc)
      exact Or.inl rfl
    | fallback hc hf hm =>
      obtain rfl := Option.some.inj (h.symm.trans hc)
      exact Or.inr (Or.inl ⟨_, hf, hm⟩)
    | after hc hm =>
      obtain rfl := Option.some.inj (h.symm.trans hc)
      exact Or.inr (Or.inr hm)
  · rintro (rfl | ⟨f, hf, hm⟩ | hm)
    · exact .first h
    · exact .fallback h hf hm
    · exact .after h hm

/-- The first reference is at the start of a text if an opening is, else after its first
character. -/
theorem firstReference?_cons (x : Char) (t : Text) :
    firstReference? (x :: t) =
      match opening? (x :: t) with
      | some o =>
        (closing? o.rest).map fun d =>
          { before := []
            reference :=
              { name := o.name, fallback? := d.fallback?, written := o.written ++ d.written }
            after := d.rest }
      | none => (firstReference? t).map fun c => { c with before := x :: c.before } := by
  rw [firstReference?, firstOpening?]
  cases opening? (x :: t) with
  | some o => rfl
  | none =>
    rw [firstReference?]
    cases firstOpening? t with
    | none => rfl
    | some p => cases hd : closing? p.2.rest <;> simp [hd]

/-! ### Blanks before a text -/

theorem opening?_cons_of_isBlank {b : Char} (t : Text) (hb : isBlank b = true) :
    opening? (b :: t) = none := by
  have hv : 'v' ≠ b := by
    rintro rfl
    exact absurd hb (by decide)
  simp [opening?, afterStart?, hv]

/-- **Blanks before a text go to the text before its first reference.** -/
theorem firstReference?_blank_append {start : Text} (t : Text) (h : isAllBlank start = true) :
    firstReference? (start ++ t) =
      (firstReference? t).map fun c => { c with before := start ++ c.before } := by
  induction start with
  | nil => simp
  | cons b start ih =>
    obtain ⟨hb, hstart⟩ : isBlank b = true ∧ isAllBlank start = true := by simpa using h
    rw [List.cons_append, firstReference?_cons, opening?_cons_of_isBlank _ hb, ih hstart]
    simp only [Option.map_map]
    rfl

/-! ### Blanks after a text -/

section After

variable {stop : Text} (hstop : isAllBlank stop = true)
include hstop

/-- A mark without blanks begins in a text, or not, whatever blanks come after the text. -/
theorem afterStart?_append_blank {lead : Text} (t : Text)
    (hlead : ∀ c ∈ lead, isBlank c = false) :
    afterStart? lead (t ++ stop) = (afterStart? lead t).map (· ++ stop) := by
  cases stop with
  | nil => simp
  | cons b stop =>
    have hb : b ∉ lead := fun hmem =>
      not_mem_of_isAllBlank hstop (hlead b hmem) (List.mem_cons_self ..)
    exact afterStart?_append_cons hb t stop

theorem takeWhile_isVariableChar_append_blank (t : Text) :
    (t ++ stop).takeWhile isVariableChar = t.takeWhile isVariableChar := by
  -- no blank goes on with a name
  have hnil : stop.takeWhile isVariableChar = [] := by
    cases stop with
    | nil => rfl
    | cons b stop =>
      have hb := isVariableChar_of_isBlank (isBlank_of_mem_isAllBlank hstop (List.mem_cons_self ..))
      simp [hb]
  rw [List.takeWhile_append]
  split
  · rename_i h
    rw [hnil, List.append_nil]
    exact ((List.takeWhile_prefix _).eq_of_length h).symm
  · rfl

theorem dropWhile_isVariableChar_append_blank (t : Text) :
    (t ++ stop).dropWhile isVariableChar = t.dropWhile isVariableChar ++ stop := by
  have h : (t ++ stop).takeWhile isVariableChar ++ (t ++ stop).dropWhile isVariableChar =
      t.takeWhile isVariableChar ++ (t.dropWhile isVariableChar ++ stop) := by
    rw [List.takeWhile_append_dropWhile, ← List.append_assoc, List.takeWhile_append_dropWhile]
  rw [takeWhile_isVariableChar_append_blank hstop] at h
  exact List.append_cancel_left h

theorem takeWhile_isBlank_append_blank (t : Text) :
    (t ++ stop).takeWhile isBlank =
      if trimStart t = [] then t.takeWhile isBlank ++ stop else t.takeWhile isBlank := by
  have h := takeWhile_append_trimStart (t ++ stop)
  rw [trimStart_append_blank hstop] at h
  split
  · rename_i hnil
    have ht := takeWhile_append_trimStart t
    rw [hnil, List.append_nil] at ht
    rw [if_pos hnil, List.append_nil] at h
    rw [h, ht]
  · rename_i hne
    rw [if_neg hne, ← List.append_assoc] at h
    have ht := List.append_cancel_right h
    exact List.append_cancel_right (ht.trans (takeWhile_append_trimStart t).symm)

/-- **Blanks after a text go to what follows its opening**, or to the opening itself if
nothing follows. -/
theorem opening?_append_blank (t : Text) :
    opening? (t ++ stop) =
      (opening? t).map fun o =>
        if o.rest = [] then { o with written := o.written ++ stop }
        else { o with rest := o.rest ++ stop } := by
  have hvar : ∀ c ∈ "var(".toList, isBlank c = false := by simp [isBlank]
  have hdash : ∀ c ∈ "--".toList, isBlank c = false := by simp [isBlank]
  simp only [opening?, afterStart?_append_blank hstop t hvar]
  cases afterStart? "var(".toList t with
  | none => rfl
  | some inner =>
    simp only [Option.map_some, Option.bind_eq_bind, Option.bind_some,
      trimStart_append_blank hstop inner]
    by_cases hinner : trimStart inner = []
    -- nothing but blanks comes after the parenthesis
    · simp [hinner, afterStart?]
    · rw [if_neg hinner, afterStart?_append_blank hstop _ hdash]
      cases afterStart? "--".toList (trimStart inner) with
      | none => rfl
      | some body =>
        simp only [Option.map_some, Option.bind_some,
          takeWhile_isVariableChar_append_blank hstop,
          dropWhile_isVariableChar_append_blank hstop,
          takeWhile_isBlank_append_blank hstop inner, if_neg hinner]
        split
        · rfl
        -- the blanks after the name are the last of the opening, and go on if nothing follows
        · rw [trimStart_append_blank hstop, takeWhile_isBlank_append_blank hstop]
          split <;> simp_all

/-- A parenthesis is closed in a text, or not, whatever blanks come after the text. -/
theorem closingParen?_append_blank (depth : Nat) (t : Text) :
    closingParen? depth (t ++ stop) =
      (closingParen? depth t).map fun p => (p.1, p.2 ++ stop) := by
  induction t generalizing depth with
  | nil =>
    -- blanks close nothing
    rw [List.nil_append]
    induction stop generalizing depth with
    | nil => simp
    | cons b stop ih =>
      have hne : b ≠ ')' := by
        rintro rfl
        exact not_mem_of_isAllBlank hstop (by decide) (List.mem_cons_self ..)
      have hstop' : isAllBlank stop = true := by simp_all
      simpa [closingParen?, hne] using ih hstop' _
  | cons c t ih =>
    rw [List.cons_append, closingParen?, closingParen?, ih]
    split
    · rfl
    · cases closingParen? (depthAfter depth c) t <;> rfl

/-- **Blanks after a text go to what follows its closing.** -/
theorem closing?_append_blank {t : Text} (ht : t ≠ []) :
    closing? (t ++ stop) = (closing? t).map fun d => { d with rest := d.rest ++ stop } := by
  cases t with
  | nil => exact absurd rfl ht
  | cons c t =>
    rw [List.cons_append]
    by_cases hparen : c = ')'
    · subst hparen
      rfl
    by_cases hcomma : c = ','
    · subst hcomma
      rw [closing?, closing?, closingParen?_append_blank hstop]
      cases closingParen? 0 t <;> rfl
    · simp [closing?, hparen, hcomma]

/-- **Blanks after a text go to the text after its first reference.** -/
theorem firstReference?_append_blank (t : Text) :
    firstReference? (t ++ stop) =
      (firstReference? t).map fun c => { c with after := c.after ++ stop } := by
  induction t with
  | nil => simpa [firstReference?] using firstReference?_blank_append [] hstop
  | cons x t ih =>
    rw [List.cons_append, firstReference?_cons, firstReference?_cons, ← List.cons_append,
      opening?_append_blank hstop]
    cases opening? (x :: t) with
    | none =>
      simp only [Option.map_none, ih, Option.map_map]
      rfl
    | some o =>
      simp only [Option.map_some]
      split
      · rename_i hrest
        simp [hrest, closing?]
      · rename_i hrest
        rw [closing?_append_blank hstop hrest, Option.map_map, Option.map_map]
        rfl

end After

/-! ### Trimmed texts -/

/-- The first reference of a text, when the text stands between blanks. -/
theorem firstReference?_between_blanks {t start stop : Text} {c : Cut}
    (hstart : isAllBlank start = true) (hstop : isAllBlank stop = true)
    (h : firstReference? t = some c) :
    firstReference? (start ++ (t ++ stop)) =
      some { c with before := start ++ c.before, after := c.after ++ stop } := by
  rw [firstReference?_blank_append _ hstart, firstReference?_append_blank hstop, h]
  rfl

/-- Blanks around a text hide none of the properties that it mentions. -/
theorem Mentions.between_blanks {t m start stop : Text} (h : Mentions t m)
    (hstart : isAllBlank start = true) (hstop : isAllBlank stop = true) :
    Mentions (start ++ (t ++ stop)) m := by
  induction h generalizing start with
  | first h =>
    have hcut := firstReference?_between_blanks hstart hstop h
    exact (Mentions.first hcut :)
  | fallback h hf hm =>
    exact Mentions.fallback (firstReference?_between_blanks hstart hstop h) hf hm
  | after h hm ih =>
    have hafter : isAllBlank [] = true := rfl
    exact Mentions.after (firstReference?_between_blanks hstart hstop h) (ih hafter)

/-- **A trimmed text mentions nothing more.** -/
theorem Mentions.of_trim {t m : Text} (h : Mentions (trim t) m) : Mentions t m := by
  obtain ⟨start, stop, hstart, hstop, ht⟩ := exists_eq_append_trim t
  rw [ht]
  exact h.between_blanks hstart hstop

/-! ### From a text to its sources -/

/-- **A property leads to another**: its value mentions it. -/
def LeadsTo (lookup : Text → Option Text) (name other : Text) : Prop :=
  ∃ value, lookup name = some value ∧ Mentions value other

section Source

variable {lookup : Text → Option Text} {t : Text} {c : Cut}

/-- **Where the mentions of a source come from**: the property leads to them, or the source is a
fallback, and the text that the reference stands in has them too. -/
theorem mentions_source_cases {source m : Text} (hc : firstReference? t = some c)
    (hsource : c.reference.source? lookup = some source) (hm : Mentions (trim source) m) :
    LeadsTo lookup c.reference.name m ∨ lookup c.reference.name = none ∧ Mentions t m := by
  rcases Option.or_eq_some_iff.mp hsource with hvalue | ⟨hnone, hf⟩
  · exact Or.inl ⟨source, hvalue, hm.of_trim⟩
  · exact Or.inr ⟨hnone, .fallback hc hf hm.of_trim⟩

/-- **Each property of a chain is related to all that a text mentions.** -/
def ChainRelates (R : Text → Text → Prop) (chain : List Text) (t : Text) : Prop :=
  ∀ name ∈ chain, ∀ m, Mentions t m → R name m

namespace ChainRelates

variable {R : Text → Text → Prop} {chain : List Text}

theorem nil (R : Text → Text → Prop) (t : Text) : ChainRelates R [] t :=
  fun _ hname => absurd hname List.not_mem_nil

/-- **The relation goes inside a source**, be it a value or a fallback, if it goes from step to
step: a property with a value joins the chain, and a fallback mentions nothing new. -/
theorem source (h : ChainRelates R chain t) (htrans : ∀ a b c, R a b → R b c → R a c)
    (hleads : ∀ a b, LeadsTo lookup a b → R a b) (hc : firstReference? t = some c) {source : Text}
    (hsource : c.reference.source? lookup = some source) :
    ChainRelates R (c.reference.innerChain lookup chain) (trim source) := by
  intro name hname m hm
  rcases mentions_source_cases hc hsource hm with hstep | ⟨hnone, hmentions⟩
  · rcases Reference.mem_innerChain_iff.mp hname with hname | ⟨rfl, -⟩
    · exact htrans _ _ _ (h name hname _ (.first hc)) (hleads _ _ hstep)
    · exact hleads _ _ hstep
  · rcases Reference.mem_innerChain_iff.mp hname with hname | ⟨rfl, hsome⟩
    · exact h name hname m hmentions
    · simp [hnone] at hsome

/-- The relation goes on after a reference. -/
theorem after (h : ChainRelates R chain t) (hc : firstReference? t = some c) :
    ChainRelates R chain c.after :=
  fun name hname m hm => h name hname m (.after hc hm)

/-- A property that is met again is related to itself. -/
theorem self (h : ChainRelates R chain t) (hc : firstReference? t = some c)
    (hmem : c.reference.name ∈ chain) : R c.reference.name c.reference.name :=
  h _ hmem _ (.first hc)

end ChainRelates

end Source

end CssResources
