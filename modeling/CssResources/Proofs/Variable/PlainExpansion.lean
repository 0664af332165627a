import CssResources.Proofs.Variable.Mention

/-!
# Plain expansion

What substitution means when nothing has to stop it: `CssResources.PlainlyExpands` puts,
for each reference, the value of its property, else its fallback, each expanded in its
turn, and knows neither a chain of properties nor a budget. On a table whose references
lead back to themselves it has no result at all; that is what the chain and the budget of
`CssResources.resolve` are for.

On a table without such a circle the two agree. The circle is excluded by a **rank** that
goes down along every reference (`CssResources.Ranked`), and the agreement has two parts.

* Plain expansion has a result (`CssResources.exists_plainlyExpands`): by induction on the
  rank of a property its value has one, and by induction on its length every text whose
  properties' values have one has one too.
* Resolution finds that result (`CssResources.PlainlyExpands.exists_cost`), by induction on
  how it came about. The chain is never in the way, because **what a text mentions ranks
  below what is being expanded**; a fallback does not lengthen the chain, but it mentions
  nothing that the text around it does not mention. The budget is not in the way from the
  number of substitutions on, which is the cost that the induction adds up.
-/

namespace CssResources

/-! ### The relation -/

section Relation

variable (lookup : Text → Option Text)

/-- **Plain expansion**: the second text is what substitution makes of the first. -/
inductive PlainlyExpands : Text → Text → Prop where
  /-- A text without a first reference stays as it is. -/
  | verbatim {t : Text} (h : firstReference? t = none) : PlainlyExpands t t
  /-- A reference to a property with a value is replaced by the expansion of the value. -/
  | value {t value inner outer : Text} {c : Cut} (h : firstReference? t = some c)
      (hvalue : lookup c.reference.name = some value)
      (hinner : PlainlyExpands (trim value) inner) (houter : PlainlyExpands c.after outer) :
      PlainlyExpands t (c.before ++ (inner ++ outer))
  /-- A reference to a property without one is replaced by the expansion of its fallback. -/
  | fallback {t fallback inner outer : Text} {c : Cut} (h : firstReference? t = some c)
      (hvalue : lookup c.reference.name = none) (hf : c.reference.fallback? = some fallback)
      (hinner : PlainlyExpands (trim fallback) inner) (houter : PlainlyExpands c.after outer) :
      PlainlyExpands t (c.before ++ (inner ++ outer))
  /-- A reference with neither stays as it is written. -/
  | undefined {t outer : Text} {c : Cut} (h : firstReference? t = some c)
      (hvalue : lookup c.reference.name = none) (hf : c.reference.fallback? = none)
      (houter : PlainlyExpands c.after outer) :
      PlainlyExpands t (c.before ++ (c.reference.written ++ outer))

/-- **The references of a table go down a rank**: a property ranks above all that its value
mentions. -/
def Ranked (rank : Text → Nat) : Prop :=
  ∀ name value, lookup name = some value → ∀ m, Mentions value m → rank m < rank name

end Relation

variable {lookup : Text → Option Text}

/-- **Plain expansion has one result at most.** -/
theorem PlainlyExpands.unique {t out out' : Text} (h : PlainlyExpands lookup t out)
    (h' : PlainlyExpands lookup t out') : out = out' := by
  induction h generalizing out' with
  | verbatim h => cases h' <;> simp_all
  | value h hvalue hinner houter ihinner ihouter =>
    cases h' with
    | value h₁ hvalue₁ hinner₁ houter₁ =>
      obtain rfl := Option.some.inj (h.symm.trans h₁)
      obtain rfl := Option.some.inj (hvalue.symm.trans hvalue₁)
      rw [ihinner hinner₁, ihouter houter₁]
    | _ => simp_all
  | fallback h hvalue hf hinner houter ihinner ihouter =>
    cases h' with
    | fallback h₁ hvalue₁ hf₁ hinner₁ houter₁ =>
      obtain rfl := Option.some.inj (h.symm.trans h₁)
      obtain rfl := Option.some.inj (hf.symm.trans hf₁)
      rw [ihinner hinner₁, ihouter houter₁]
    | _ => simp_all
  | undefined h hvalue hf houter ihouter =>
    cases h' with
    | undefined h₁ hvalue₁ hf₁ houter₁ =>
      obtain rfl := Option.some.inj (h.symm.trans h₁)
      rw [ihouter houter₁]
    | _ => simp_all

/-! ### Plain expansion has a result -/

/-- A text has a plain expansion if the values of the properties that it mentions have
one. The text after a reference and its fallback are shorter than the text. -/
theorem exists_plainlyExpands_of_mentions {t : Text}
    (h : ∀ m, Mentions t m → ∀ value, lookup m = some value →
      ∃ out, PlainlyExpands lookup (trim value) out) :
    ∃ out, PlainlyExpands lookup t out := by
  induction hlen : t.length using Nat.strongRecOn generalizing t with
  | ind length ih =>
    subst hlen
    cases hc : firstReference? t with
    | none => exact ⟨t, .verbatim hc⟩
    | some c =>
      obtain ⟨outer, houter⟩ :=
        ih c.after.length (length_after_lt hc) (fun m hm => h m (.after hc hm)) rfl
      cases hvalue : lookup c.reference.name with
      | some value =>
        obtain ⟨inner, hinner⟩ := h _ (.first hc) value hvalue
        exact ⟨_, .value hc hvalue hinner houter⟩
      | none =>
        cases hf : c.reference.fallback? with
        | none => exact ⟨_, .undefined hc hvalue hf houter⟩
        | some f =>
          have hlt : (trim f).length < t.length :=
            Nat.lt_of_le_of_lt (length_trim_le f) (length_fallback_lt hc hf)
          obtain ⟨inner, hinner⟩ :=
            ih _ hlt (fun m hm => h m (.fallback hc hf hm.of_trim)) rfl
          exact ⟨_, .fallback hc hvalue hf hinner houter⟩

variable {rank : Text → Nat}

/-- **Every text has a plain expansion** when the references of the table go down a rank. -/
theorem exists_plainlyExpands (hrank : Ranked lookup rank) (t : Text) :
    ∃ out, PlainlyExpands lookup t out := by
  have hvalues : ∀ r name value, rank name = r → lookup name = some value →
      ∃ out, PlainlyExpands lookup (trim value) out := by
    intro r
    induction r using Nat.strongRecOn with
    | ind r ih =>
      rintro name value rfl hvalue
      refine exists_plainlyExpands_of_mentions fun m hm value' hvalue' => ?_
      exact ih (rank m) (hrank name value hvalue m hm.of_trim) m value' rfl hvalue'
  exact exists_plainlyExpands_of_mentions fun m _ value hvalue => hvalues _ m value rfl hvalue

/-! ### Resolution finds it -/

/-- **A text expands to `out` at a cost**: with the cost and anything on top of it, no cycle
is cut, nothing is left for lack of budget, and what is on top is left over. -/
def ExpandsAtCost (lookup : Text → Option Text) (chain : List Text) (t out : Text) (cost : Nat) :
    Prop :=
  ∀ spare, (expandText lookup chain (cost + spare) t).value = out ∧
    (expandText lookup chain (cost + spare) t).cycles = [] ∧
    (expandText lookup chain (cost + spare) t).truncated = [] ∧
    (expandText lookup chain (cost + spare) t).left = spare

/-- **What a text mentions ranks below a chain**: the invariant that keeps cycles away. -/
def BelowChain (rank : Text → Nat) (chain : List Text) (t : Text) : Prop :=
  ∀ name ∈ chain, ∀ m, Mentions t m → rank m < rank name

section Cost

variable {chain : List Text} {t inner outer : Text} {c : Cut} {a b : Nat}

/-- A property mentioned below a chain is not in the chain. -/
theorem BelowChain.not_mem (hbelow : BelowChain rank chain t) (h : firstReference? t = some c) :
    c.reference.name ∉ chain := fun hmem =>
  Nat.lt_irrefl _ (ChainRelates.self (R := fun name m => rank m < rank name) hbelow h hmem)

/-- **The invariant goes inside a source**, a value or a fallback: what a value mentions ranks
below its property, and a fallback mentions what the text around it mentions. -/
theorem BelowChain.source (hrank : Ranked lookup rank) (hbelow : BelowChain rank chain t)
    (h : firstReference? t = some c) {source : Text}
    (hsource : c.reference.source? lookup = some source) :
    BelowChain rank (c.reference.innerChain lookup chain) (trim source) :=
  ChainRelates.source (R := fun name m => rank m < rank name) hbelow
    (fun _ _ _ hab hbc => Nat.lt_trans hbc hab)
    (fun _ _ ⟨value, hvalue, hm⟩ => hrank _ value hvalue _ hm) h hsource

/-- The invariant goes on after a reference. -/
theorem BelowChain.after (hbelow : BelowChain rank chain t) (h : firstReference? t = some c) :
    BelowChain rank chain c.after :=
  ChainRelates.after (R := fun name m => rank m < rank name) hbelow h

/-- **The cost of a reference that is replaced** is one, the cost of its replacement, and
the cost of the text after it. -/
theorem ExpandsAtCost.replaced {source : Text} (h : firstReference? t = some c)
    (hchain : c.reference.name ∉ chain) (hsource : c.reference.source? lookup = some source)
    (hinner : ExpandsAtCost lookup (c.reference.innerChain lookup chain) (trim source) inner a)
    (houter : ExpandsAtCost lookup chain c.after outer b) :
    ExpandsAtCost lookup chain t (c.before ++ (inner ++ outer)) (a + b + 1) := by
  intro spare
  have hfate : c.reference.fate lookup chain (a + (b + spare) + 1) = .replaced source :=
    Reference.fate_eq_replaced_iff.mpr ⟨hchain, hsource, Nat.succ_ne_zero _⟩
  obtain ⟨hv, hc, ht, hl⟩ := hinner (b + spare)
  obtain ⟨hv', hc', ht', hl'⟩ := houter spare
  rw [show a + b + 1 + spare = a + (b + spare) + 1 by omega, expandText_of_replaced h hfate]
  simp only [Expansion.value_append, Expansion.cycles_append, Expansion.truncated_append,
    Expansion.left_append, hv, hc, ht, hl, hv', hc', ht', hl', List.append_nil, and_self]

/-- A reference with neither a value nor a fallback costs nothing. -/
theorem ExpandsAtCost.undefined (h : firstReference? t = some c)
    (hchain : c.reference.name ∉ chain) (hsource : c.reference.source? lookup = none)
    (houter : ExpandsAtCost lookup chain c.after outer b) :
    ExpandsAtCost lookup chain t (c.before ++ (c.reference.written ++ outer)) b := by
  intro spare
  have hfate : c.reference.fate lookup chain (b + spare) = .kept .undefined :=
    Reference.fate_eq_undefined_iff.mpr ⟨hchain, hsource⟩
  obtain ⟨hv, hc, ht, hl⟩ := houter spare
  rw [expandText_of_kept h hfate]
  simp [Obstacle.expansion, hv, hc, ht, hl]

end Cost

/-- **Resolution does what plain expansion does**, at some cost, below any chain. -/
theorem PlainlyExpands.exists_cost {t out : Text} (hrank : Ranked lookup rank)
    (h : PlainlyExpands lookup t out) :
    ∀ chain, BelowChain rank chain t → ∃ cost, ExpandsAtCost lookup chain t out cost := by
  induction h with
  | verbatim h =>
    intro chain _
    exact ⟨0, fun spare => by simp [expandText_of_none h]⟩
  | value h hvalue _ _ ihinner ihouter =>
    -- the property joins the chain, and its value mentions only what ranks below it
    intro chain hbelow
    obtain ⟨a, ha⟩ := ihinner _ (hbelow.source hrank h (by simp [Reference.source?, hvalue]))
    obtain ⟨b, hb⟩ := ihouter chain (hbelow.after h)
    exact ⟨a + b + 1, .replaced h (hbelow.not_mem h) (by simp [Reference.source?, hvalue]) ha hb⟩
  | fallback h hvalue hf _ _ ihinner ihouter =>
    -- the chain stays, and the fallback mentions only what the text mentions
    intro chain hbelow
    obtain ⟨a, ha⟩ := ihinner _ (hbelow.source hrank h (by simp [Reference.source?, hvalue, hf]))
    obtain ⟨b, hb⟩ := ihouter chain (hbelow.after h)
    exact ⟨a + b + 1,
      .replaced h (hbelow.not_mem h) (by simp [Reference.source?, hvalue, hf]) ha hb⟩
  | undefined h hvalue hf _ ihouter =>
    intro chain hbelow
    obtain ⟨b, hb⟩ := ihouter chain (hbelow.after h)
    exact ⟨b, .undefined h (hbelow.not_mem h) (by simp [Reference.source?, hvalue, hf]) hb⟩

/-! ### The theorem -/

/-- **Without circles the chain and the budget cannot be observed.** If the references of a
table go down a rank, every value has exactly one plain expansion, and from some limit on
resolving the value gives that expansion and reports neither a cycle nor a property left
for lack of budget. -/
theorem exists_limit_resolve_eq_plain (table : VariableTable) (rank : Text → Nat)
    (hrank : Ranked table.value? rank) (raw : Text) :
    ∃ value, (∀ out, PlainlyExpands table.value? raw out ↔ out = value) ∧
      ∃ limit, ∀ n ≥ limit,
        (resolve table.value? n raw).value = value ∧
          (resolve table.value? n raw).cycles = [] ∧
          (resolve table.value? n raw).truncated = [] := by
  obtain ⟨value, hvalue⟩ := exists_plainlyExpands hrank raw
  refine ⟨value, fun out => ⟨fun h => h.unique hvalue, fun h => h ▸ hvalue⟩, ?_⟩
  have hbelow : BelowChain rank [] raw := fun name hname => absurd hname List.not_mem_nil
  obtain ⟨cost, hcost⟩ := hvalue.exists_cost hrank [] hbelow
  refine ⟨cost, fun n hn => ?_⟩
  obtain ⟨spare, rfl⟩ := Nat.exists_eq_add_of_le hn
  obtain ⟨hv, hc, ht, -⟩ := hcost spare
  rw [expandText] at hv hc ht
  exact ⟨hv, hc, by rw [resolve, ht, List.eraseDups_nil]⟩

/-- Two properties, of which the second refers to the first. -/
def buttonTable : VariableTable :=
  VariableTable.define (VariableTable.define ∅ "base".toList "#ABCDEF".toList 1)
    "button".toList " var(--base, red)".toList 2

/-- The rank of the properties of `CssResources.buttonTable`. -/
def buttonRank (name : Text) : Nat := if name = "button".toList then 1 else 0

theorem ranked_buttonTable : Ranked buttonTable.value? buttonRank := by
  intro name value hvalue m hm
  rw [buttonTable, VariableTable.value?_define, VariableTable.value?_define] at hvalue
  split at hvalue
  · rename_i hname
    obtain rfl := Option.some.inj hvalue
    have hcut : firstReference? " var(--base, red)".toList =
        some ⟨" ".toList, ⟨"base".toList, some " red".toList, "var(--base, red)".toList⟩, []⟩ := by
      decide
    have hred : firstReference? " red".toList = none := by decide
    subst hname
    rcases (mentions_iff_of_some hcut m).mp hm with rfl | ⟨f, hf, hm⟩ | hm
    · decide
    · obtain rfl := Option.some.inj hf
      exact absurd hm (not_mentions_of_none hred m)
    · exact absurd hm (not_mentions_nil m)
  · split at hvalue
    · obtain rfl := Option.some.inj hvalue
      have hcolor : firstReference? "#ABCDEF".toList = none := by decide
      exact absurd hm (not_mentions_of_none hcolor m)
    · simp [VariableTable.value?] at hvalue

/-- A value with references to both of them. -/
def buttonUse : Text := "1px var(--button) var(--x, var(--base))".toList

theorem exists_limit_resolve_eq_plain_button :
    Ranked buttonTable.value? buttonRank ∧
      ∃ value, (∀ out, PlainlyExpands buttonTable.value? buttonUse out ↔ out = value) ∧
        ∃ limit, ∀ n ≥ limit,
          (resolve buttonTable.value? n buttonUse).value = value ∧
            (resolve buttonTable.value? n buttonUse).cycles = [] ∧
            (resolve buttonTable.value? n buttonUse).truncated = [] :=
  ⟨ranked_buttonTable, exists_limit_resolve_eq_plain buttonTable buttonRank ranked_buttonTable _⟩

end CssResources
