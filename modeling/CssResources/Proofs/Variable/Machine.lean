import CssResources.Proofs.Variable.Substitution
import Mathlib.Data.Int.Notation
import Mathlib.Logic.Function.Iterate
import Mathlib.Tactic.Set

/-!
# Substitution, step by step

`CssResources.resolve` says what a value becomes. This file says how it gets there, as a
machine that never looks ahead: a stack of texts that are being read, the innermost first
(`CssResources.Pass`), one budget for all of them, and the reports so far. A step finds the
first reference of the innermost text and either keeps it, or starts to read what it is
replaced by; a text without a reference is given back to the text that asked for it.

Two things are counted apart from each other. The **budget** is an integer that a
replacement counts down, and nothing in a step keeps it from falling below zero but the
test that the step makes; the **substitutions** are counted up. What a step preserves is
that the budget is not negative and that the two add up to the limit
(`CssResources.Machine.Balanced.step`).

That the machine stops is part of what it is shown to compute: started on a value, it
arrives after finitely many steps at what `CssResources.resolve` gives
(`CssResources.Machine.readsThrough`,
`CssResources.Machine.exists_run_eq_atRest`).
-/

namespace CssResources

/-! ### The machine -/

/-- **A text that is being read.** -/
structure Pass where
  /-- What has been made of the text so far. -/
  output : Text := []
  /-- What is still to be read. -/
  rest : Text
  /-- The property whose value the text is, unless it is a fallback or the text that the
  machine was started on. -/
  property? : Option Text := none
  deriving DecidableEq, Repr

/-- The chain of a stack of texts: the properties whose values are being read. -/
def Pass.chain (passes : List Pass) : List Text := passes.filterMap Pass.property?

/-- **A machine in the middle of a substitution.** -/
@[ext] structure Machine where
  /-- The texts that are being read, the innermost first. -/
  passes : List Pass
  /-- The substitutions that may still be made. -/
  budget : Int
  /-- The substitutions made. -/
  substitutions : Nat := 0
  /-- The properties with neither a value nor a fallback, as met. -/
  unresolved : List Text := []
  /-- The properties at which a cycle was cut, as met. -/
  cycles : List Text := []
  /-- The properties not expanded for lack of budget, each once. -/
  truncated : List Text := []
  /-- The result, once there is nothing more to read. -/
  result? : Option Text := none
  deriving DecidableEq, Repr

namespace Machine

/-- Gives what became of a text to the text around it. The outermost text is the result. -/
def giveBack (m : Machine) (value : Text) : List Pass → Machine
  | [] => { m with passes := [], result? := some value }
  | p :: ps => { m with passes := { p with output := p.output ++ value } :: ps }

/-- Begins to read what a reference is replaced by. -/
def enter (m : Machine) (source : Text) (property? : Option Text) (ps : List Pass) : Machine :=
  { m with
    passes := { rest := trim source, property? } :: ps
    budget := m.budget - 1
    substitutions := m.substitutions + 1 }

variable (lookup : Text → Option Text)

/-- **Meets the first reference** of the innermost text. -/
def meet (m : Machine) (c : Cut) (p : Pass) (ps : List Pass) : Machine :=
  let read : Pass := { p with output := p.output ++ c.before, rest := c.after }
  let kept : Pass := { read with output := read.output ++ c.reference.written }
  let name := c.reference.name
  if name ∈ Pass.chain (p :: ps) then
    { m with passes := kept :: ps, cycles := m.cycles ++ [name] }
  else if (c.reference.source? lookup).isSome ∧ m.budget = 0 then
    { m with passes := kept :: ps, truncated := addOnce m.truncated name }
  else
    match lookup name, c.reference.fallback? with
    | some value, _ => m.enter value (some name) (read :: ps)
    | none, some fallback => m.enter fallback none (read :: ps)
    | none, none => { m with passes := kept :: ps, unresolved := m.unresolved ++ [name] }

/-- **A step**; a machine with nothing to read rests. -/
def step (m : Machine) : Machine :=
  match m.passes with
  | [] => m
  | p :: ps =>
    match firstReference? p.rest with
    | none => m.giveBack (p.output ++ p.rest) ps
    | some c => m.meet lookup c p ps

/-- The machine before its first step. -/
def start (limit : Nat) (raw : Text) : Machine := { passes := [{ rest := raw }], budget := limit }

/-- The value resolved, once the machine rests. -/
def outcome? (m : Machine) : Option Resolution :=
  m.result?.map fun value =>
    { value, unresolved := m.unresolved, cycles := m.cycles, truncated := m.truncated }

/-! ### What a step preserves -/

/-- **The budget is not negative, and what it lost was spent**: the invariant of every
machine that was started with the limit. -/
structure Balanced (limit : Nat) (m : Machine) : Prop where
  /-- The budget is not overdrawn. -/
  nonneg : 0 ≤ m.budget
  /-- The substitutions made and those that may still be made add up to the limit. -/
  spent : m.substitutions + m.budget = limit

variable {lookup} {limit : Nat} {m : Machine}

theorem balanced_start (limit : Nat) (raw : Text) : (start limit raw).Balanced limit :=
  ⟨Int.natCast_nonneg limit, by simp [start]⟩

theorem Balanced.giveBack (h : m.Balanced limit) (value : Text) (ps : List Pass) :
    (m.giveBack value ps).Balanced limit := by
  cases ps <;> exact ⟨h.nonneg, h.spent⟩

/-- A replacement takes one from a budget that has one. -/
theorem Balanced.enter (h : m.Balanced limit) (hbudget : m.budget ≠ 0) (source : Text)
    (property? : Option Text) (ps : List Pass) :
    (m.enter source property? ps).Balanced limit := by
  obtain ⟨hnonneg, hspent⟩ := h
  refine ⟨?_, ?_⟩
  · show 0 ≤ m.budget - 1
    omega
  · show ((m.substitutions + 1 : ℕ) : ℤ) + (m.budget - 1) = limit
    push_cast
    omega

/-- **Meeting a reference preserves the balance.** A replacement is begun only where the
reference has a source, and there the test of the budget came first. -/
theorem Balanced.meet (h : m.Balanced limit) (c : Cut) (p : Pass) (ps : List Pass) :
    (m.meet lookup c p ps).Balanced limit := by
  unfold Machine.meet
  dsimp only
  split
  · exact ⟨h.nonneg, h.spent⟩
  · split
    · exact ⟨h.nonneg, h.spent⟩
    · rename_i hbudget
      cases hvalue : lookup c.reference.name with
      | some value =>
        exact h.enter (fun hzero => hbudget ⟨by simp [Reference.source?, hvalue], hzero⟩) _ _ _
      | none =>
        cases hf : c.reference.fallback? with
        | some fallback =>
          exact h.enter (fun hzero => hbudget ⟨by simp [Reference.source?, hf], hzero⟩) _ _ _
        | none => exact ⟨h.nonneg, h.spent⟩

/-- **A step preserves the balance.** -/
theorem Balanced.step (h : m.Balanced limit) : (m.step lookup).Balanced limit := by
  unfold Machine.step
  split
  · exact h
  · split
    · exact h.giveBack _ _
    · exact h.meet _ _ _

/-- **A run preserves the balance.** -/
theorem Balanced.run (h : m.Balanced limit) (n : ℕ) :
    ((Machine.step lookup)^[n] m).Balanced limit := by
  induction n generalizing m with
  | zero => exact h
  | succ n ih =>
    rw [Function.iterate_succ_apply]
    exact ih h.step

/-! ### What a run computes -/

/-- The machine after the expansion of a part of a value: what it reports is reported, and
the budget is what it leaves. -/
def absorb (m : Machine) (e : Expansion) : Machine :=
  { m with
    budget := e.left
    substitutions := m.substitutions + (m.budget - e.left).toNat
    unresolved := m.unresolved ++ e.unresolved
    cycles := m.cycles ++ e.cycles
    truncated := e.truncated.foldl addOnce m.truncated }

/-- **Two expansions, one after the other, are absorbed as one**, if neither leaves more of
the budget than it was given. -/
theorem absorb_absorb {d e : Expansion} (hd : (d.left : ℤ) ≤ m.budget) (he : e.left ≤ d.left) :
    (m.absorb d).absorb e = m.absorb (d ++ e) := by
  ext1
  case substitutions =>
    simp only [absorb, Expansion.left_append]
    omega
  all_goals simp [absorb]

/-- To begin to read a replacement is to absorb the text before its reference, at the price
of one. -/
theorem enter_eq_absorb {budget : ℕ} (hbudget : m.budget = (budget + 1 : ℕ)) (before source : Text)
    (property? : Option Text) (ps : List Pass) :
    m.enter source property? ps =
      { m.absorb { value := before, left := budget } with
        passes := { rest := trim source, property? } :: ps } := by
  ext1 <;> simp [enter, absorb, hbudget]

/-- What is given back does not depend on the texts that were being read. -/
theorem giveBack_absorb_with_passes (e : Expansion) (value : Text) (qs ps : List Pass) :
    ({ m with passes := qs }.absorb e).giveBack value ps = (m.absorb e).giveBack value ps := by
  cases ps <;> rfl

/-- A machine at rest stays at rest. -/
theorem step_of_passes_eq_nil (h : m.passes = []) : m.step lookup = m := by
  rw [step, h]

theorem run_of_passes_eq_nil (h : m.passes = []) (n : ℕ) : (step lookup)^[n] m = m :=
  Function.iterate_fixed (step_of_passes_eq_nil h) n

section Meet

variable {c : Cut} {p : Pass} {ps : List Pass} {budget : ℕ}

/-- The text that is left when a reference is kept. -/
def keptPass (c : Cut) (p : Pass) : Pass :=
  { p with output := p.output ++ c.before ++ c.reference.written, rest := c.after }

/-- **A reference whose fate is to be kept is kept**, and reported. -/
theorem meet_of_kept {o : Obstacle} (hbudget : m.budget = budget)
    (hf : c.reference.fate lookup (Pass.chain (p :: ps)) budget = .kept o) :
    m.meet lookup c p ps =
      { m.absorb (o.expansion c.reference.name (c.before ++ c.reference.written) budget) with
        passes := keptPass c p :: ps } := by
  rw [meet]
  cases o with
  | cycle =>
    rw [if_pos (Reference.fate_eq_cycle_iff.mp hf)]
    ext1 <;> simp [absorb, Obstacle.expansion, keptPass, hbudget]
  | undefined =>
    obtain ⟨hchain, hsource⟩ := Reference.fate_eq_undefined_iff.mp hf
    obtain ⟨hvalue, hfallback⟩ := Option.or_eq_none_iff.mp hsource
    rw [if_neg hchain, if_neg (by simp [hsource])]
    ext1 <;> simp [absorb, Obstacle.expansion, keptPass, hbudget, hvalue, hfallback]
  | exhausted =>
    obtain ⟨hchain, hsource, rfl⟩ := Reference.fate_eq_exhausted_iff.mp hf
    rw [if_neg hchain, if_pos ⟨hsource, hbudget⟩]
    ext1 <;> simp [absorb, Obstacle.expansion, keptPass, hbudget]

/-- **A reference whose fate is to be replaced is replaced**, under the chain that it
should be. -/
theorem meet_of_replaced {source : Text} (hbudget : m.budget = (budget + 1 : ℕ))
    (hf : c.reference.fate lookup (Pass.chain (p :: ps)) (budget + 1) = .replaced source) :
    ∃ property?, Pass.chain ({ rest := trim source, property? } :: p :: ps) =
        c.reference.innerChain lookup (Pass.chain (p :: ps)) ∧
      m.meet lookup c p ps =
        m.enter source property?
          ({ p with output := p.output ++ c.before, rest := c.after } :: ps) := by
  obtain ⟨hchain, hsource, -⟩ := Reference.fate_eq_replaced_iff.mp hf
  have hpositive : m.budget ≠ 0 := by omega
  rw [meet, if_neg hchain, if_neg (fun h => hpositive h.2)]
  cases hvalue : lookup c.reference.name with
  | some value =>
    obtain rfl : value = source := by simpa [Reference.source?, hvalue] using hsource
    refine ⟨some c.reference.name, ?_, rfl⟩
    simp [Pass.chain, Reference.innerChain, hvalue]
  | none =>
    have hfallback : c.reference.fallback? = some source := by
      simpa [Reference.source?, hvalue] using hsource
    refine ⟨none, ?_, by simp [hfallback]⟩
    simp [Pass.chain, Reference.innerChain, hvalue]

end Meet

/-- **A text is read to its end**: a machine that begins to read it, under a chain and with
a budget, arrives where its expansion is given back to the text around it. -/
def ReadsThrough (lookup : Text → Option Text) (chain : List Text) (budget : ℕ) (t : Text) : Prop :=
  ∀ (m : Machine) (p : Pass) (ps : List Pass), m.passes = p :: ps → p.rest = t →
    Pass.chain (p :: ps) = chain → m.budget = budget →
    ∃ n, (step lookup)^[n] m =
      (m.absorb (expandText lookup chain budget t)).giveBack
        (p.output ++ (expandText lookup chain budget t).value) ps

section Read

variable {chain : List Text} {budget : ℕ} {t : Text} {c : Cut}

theorem readsThrough_of_none (hc : firstReference? t = none) :
    ReadsThrough lookup chain budget t := by
  rintro m p ps hpasses rfl rfl hbudget
  refine ⟨1, ?_⟩
  rw [Function.iterate_one, step, hpasses, expandText_of_none hc]
  simp only [hc]
  cases ps <;> ext1 <;> simp [giveBack, absorb, hbudget]

/-- A reference that is kept takes one step. -/
theorem readsThrough_of_kept {o : Obstacle} (hc : firstReference? t = some c)
    (hf : c.reference.fate lookup chain budget = .kept o)
    (hafter : ReadsThrough lookup chain budget c.after) : ReadsThrough lookup chain budget t := by
  rintro m p ps hpasses rfl rfl hbudget
  have hmeet := meet_of_kept hbudget hf
  obtain ⟨n, hn⟩ := hafter (m.meet lookup c p ps) (keptPass c p) ps (by rw [hmeet]) rfl rfl
    (by rw [hmeet]; simp [absorb])
  refine ⟨n + 1, ?_⟩
  rw [Function.iterate_succ_apply, step, hpasses]
  simp only [hc]
  rw [hn, hmeet, giveBack_absorb_with_passes, expandText_of_kept hc hf, absorb_absorb]
  · simp [keptPass]
  · simp [hbudget]
  · simpa using left_expandText_le _ _ _ _

/-- A reference that is replaced takes one step, and the steps that its replacement
takes. -/
theorem readsThrough_of_replaced {source : Text} (hc : firstReference? t = some c)
    (hf : c.reference.fate lookup chain (budget + 1) = .replaced source)
    (hinner : ReadsThrough lookup (c.reference.innerChain lookup chain) budget (trim source))
    (hafter : ∀ left ≤ budget, ReadsThrough lookup chain left c.after) :
    ReadsThrough lookup chain (budget + 1) t := by
  rintro m p ps hpasses rfl rfl hbudget
  obtain ⟨property?, hchain, hmeet⟩ := meet_of_replaced hbudget hf
  set inner := expandText lookup (c.reference.innerChain lookup (Pass.chain (p :: ps))) budget
    (trim source) with hinnerDef
  have hleft : inner.left ≤ budget := left_expandText_le _ _ _ _
  set read : Pass := { p with output := p.output ++ c.before, rest := c.after } with hread
  -- the replacement is read as the innermost text, and given back
  obtain ⟨n₁, hn₁⟩ := hinner (m.enter source property? (read :: ps)) _ (read :: ps) rfl rfl hchain
    (by simp [enter, hbudget])
  -- then the text after the reference is read with what it left
  obtain ⟨n₂, hn₂⟩ := hafter inner.left hleft
    (((m.enter source property? (read :: ps)).absorb inner).giveBack inner.value (read :: ps))
    { read with output := read.output ++ inner.value } ps rfl rfl rfl rfl
  refine ⟨n₂ + (n₁ + 1), ?_⟩
  rw [Function.iterate_add_apply, Function.iterate_succ_apply, step, hpasses]
  simp only [hc]
  rw [hmeet, hn₁, ← hinnerDef, List.nil_append, hn₂, expandText_of_replaced hc hf, ← hinnerDef]
  set after := expandText lookup (Pass.chain (p :: ps)) inner.left c.after with hafterDef
  have hleft' : after.left ≤ inner.left := left_expandText_le _ _ _ _
  calc _ = (((m.enter source property? (read :: ps)).absorb inner).absorb after).giveBack
        (read.output ++ inner.value ++ after.value) ps := giveBack_absorb_with_passes _ _ _ _
    _ = ((m.enter source property? (read :: ps)).absorb (inner ++ after)).giveBack
        (read.output ++ inner.value ++ after.value) ps := by
      rw [absorb_absorb _ hleft']
      simpa [enter, hbudget] using hleft
    _ = ((m.absorb { value := c.before, left := budget }).absorb (inner ++ after)).giveBack
        (read.output ++ inner.value ++ after.value) ps := by
      rw [enter_eq_absorb hbudget c.before, giveBack_absorb_with_passes]
    _ = _ := by
      have hfirst : ((budget : ℕ) : ℤ) ≤ m.budget := by omega
      have hlast : (inner ++ after).left ≤ budget := Nat.le_trans hleft' hleft
      rw [absorb_absorb hfirst hlast]
      simp [hread, after]

/-- **Every text is read to its end.** -/
theorem readsThrough (lookup : Text → Option Text) (chain : List Text) (budget : ℕ) (t : Text) :
    ReadsThrough lookup chain budget t :=
  expandText_induction lookup (fun _ _ _ hc => readsThrough_of_none hc)
    (fun _ _ _ _ _ hc hf hafter => readsThrough_of_kept hc hf hafter)
    (fun _ _ _ _ _ hc hf hinner hafter => readsThrough_of_replaced hc hf hinner hafter)
    chain budget t

end Read

/-! ### Coming to rest -/

/-- The machine at rest after the expansion of a value, if it was started with the limit. -/
def atRest (limit : ℕ) (e : Expansion) : Machine where
  passes := []
  budget := e.left
  substitutions := limit - e.left
  unresolved := e.unresolved
  cycles := e.cycles
  truncated := e.truncated.eraseDups
  result? := some e.value

/-- **The machine comes to rest where the expansion of the value says**, and stays there. -/
theorem exists_run_eq_atRest (lookup : Text → Option Text) (limit : ℕ) (raw : Text) :
    ∃ steps, ∀ n ≥ steps,
      (step lookup)^[n] (start limit raw) = atRest limit (expandText lookup [] limit raw) := by
  obtain ⟨steps, hsteps⟩ :=
    readsThrough lookup [] limit raw (start limit raw) { rest := raw } [] rfl rfl rfl rfl
  refine ⟨steps, fun n hn => ?_⟩
  obtain ⟨more, rfl⟩ := Nat.exists_eq_add_of_le hn
  rw [Nat.add_comm, Function.iterate_add_apply, hsteps, run_of_passes_eq_nil rfl]
  -- what is added once at a time while the machine runs is what is made distinct at the end
  have htruncated := foldl_addOnce [] (expandText lookup [] limit raw).truncated
  ext1
  case truncated => simpa [giveBack, absorb, start, atRest] using htruncated
  all_goals simp [giveBack, absorb, start, atRest]

/-- **The machine comes to rest at the resolved value**, and stays there. -/
theorem exists_run_outcome?_eq (lookup : Text → Option Text) (limit : ℕ) (raw : Text) :
    ∃ steps, ∀ n ≥ steps,
      ((step lookup)^[n] (start limit raw)).outcome? = some (resolve lookup limit raw) := by
  obtain ⟨steps, hsteps⟩ := exists_run_eq_atRest lookup limit raw
  refine ⟨steps, fun n hn => ?_⟩
  rw [hsteps n hn]
  rfl

end Machine

end CssResources
