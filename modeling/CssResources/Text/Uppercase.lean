import CssResources.Text.Basic
import CssResources.Text.Uppercase.Table

/-!
# Upper case

A text in upper case is each of its characters in capitals, by the Unicode property
`Uppercase_Mapping`. A character may become several, as the sharp s does; one without
a capital stays.
-/

namespace CssResources

/-- The run holds the code point. -/
def Uppercase.Run.holds (run : Uppercase.Run) (n : Nat) : Bool :=
  run.first ≤ n && n ≤ run.last && (n - run.first) % run.step == 0

/-- The capital of a code point of the run. -/
def Uppercase.Run.capitalOf (run : Uppercase.Run) (n : Nat) : Nat :=
  run.capital + (n - run.first)

/-- The capitals of a run lie between those of its ends. -/
theorem Uppercase.Run.capitalOf_bounds {run : Uppercase.Run} {n : Nat} (h : run.holds n = true) :
    run.capital ≤ run.capitalOf n ∧ run.capitalOf n ≤ run.capital + (run.last - run.first) := by
  rw [holds, Bool.and_eq_true, Bool.and_eq_true, decide_eq_true_eq, decide_eq_true_eq] at h
  rw [capitalOf]
  omega

/-- **The capitals of a character.** The ASCII letters come first; all others are looked
up among the runs, then among the expansions. -/
def upperChar (c : Char) : Text :=
  if c.toNat < 0x80 then [c.toUpper] else
  match Uppercase.runs.find? (·.holds c.toNat) with
  | some run => [Char.ofNat (run.capitalOf c.toNat)]
  | none =>
    match Uppercase.expansions.lookup c.toNat with
    | some capitals => capitals.map Char.ofNat
    | none => [c]

/-- **Where a capital comes from**: ASCII, a run, or an expansion, or it is the character
itself. -/
theorem mem_upperChar_cases {c d : Char} (h : d ∈ upperChar c) :
    (c.toNat < 0x80 ∧ d = c.toUpper) ∨
      (∃ run ∈ Uppercase.runs, run.holds c.toNat = true ∧
        d = Char.ofNat (run.capitalOf c.toNat)) ∨
      (∃ e ∈ Uppercase.expansions, ∃ n ∈ e.2, d = Char.ofNat n) ∨
      (0x80 ≤ c.toNat ∧ d = c) := by
  rw [upperChar] at h
  split at h
  · rename_i hc
    exact Or.inl ⟨hc, List.mem_singleton.mp h⟩
  · rename_i hc
    split at h
    · rename_i run hrun
      have hholds : run.holds c.toNat = true := by simpa using List.find?_some hrun
      exact Or.inr (Or.inl
        ⟨run, List.mem_of_find?_eq_some hrun, hholds, List.mem_singleton.mp h⟩)
    · split at h
      · rename_i capitals hcapitals
        obtain ⟨before, after, hsplit, -⟩ := List.lookup_eq_some_iff.mp hcapitals
        obtain ⟨n, hn, rfl⟩ := List.mem_map.mp h
        exact Or.inr (Or.inr (Or.inl ⟨(c.toNat, capitals), by simp [hsplit], n, hn, rfl⟩))
      · exact Or.inr (Or.inr (Or.inr ⟨Nat.not_lt.mp hc, List.mem_singleton.mp h⟩))

/-- A text in upper case. -/
def uppercase (t : Text) : Text := t.flatMap upperChar

@[simp] theorem uppercase_nil : uppercase [] = [] := rfl

@[simp] theorem uppercase_cons (c : Char) (t : Text) :
    uppercase (c :: t) = upperChar c ++ uppercase t := rfl

/-- The text with its first character in capitals. -/
def capitalizeFirst : Text → Text
  | [] => []
  | c :: t => upperChar c ++ t

@[simp] theorem capitalizeFirst_nil : capitalizeFirst [] = [] := rfl

end CssResources
