import VenomDb.Lib.Fallible
import Mathlib.Tactic

/-!
# Readers of token strings

A reader is a fallible computation on the tokens that are still to be read. Two notions of
how much of its input a reader depends on: `Delimited`, which leaves what follows alone, and
`Takes`, which asks for as many tokens as a length computed from them and fails with one
fixed failure when there are fewer.
-/

namespace Fallible

variable {ε τ α β : Type}

section Delimited

/-- What was read is read with anything after it, and what comes after is left. -/
def Delimited (read : Fallible ε (List τ) α) : Prop :=
  ∀ tokens value rest, read tokens = (.ok value, rest) →
    ∀ more, read (tokens ++ more) = (.ok value, rest ++ more)

theorem delimited_pure (value : α) : Delimited (pure value : Fallible ε (List τ) α) := by
  intro tokens value' rest run more
  rcases Prod.mk.inj run with ⟨same, rfl⟩
  cases same
  rfl

theorem delimited_throw (failure : ε) : Delimited (throw failure : Fallible ε (List τ) α) := by
  intro tokens value rest run
  simp at run

theorem Delimited.bind {read : Fallible ε (List τ) α} {next : α → Fallible ε (List τ) β}
    (first : Delimited read) (second : ∀ value, Delimited (next value)) :
    Delimited (read >>= next) := by
  intro tokens value rest run more
  rcases bind_eq_ok run with ⟨middle, between, run', run''⟩
  rw [bind_ok (first _ _ _ run' more)]
  exact second middle _ _ _ run'' more

theorem Delimited.times {read : Fallible ε (List τ) α} (delimited : Delimited read) (count : ℕ) :
    Delimited (times count read) := by
  induction count with
  | zero => exact delimited_pure []
  | succ count ih =>
      apply delimited.bind
      intro item
      apply ih.bind
      intro items
      exact delimited_pure (item :: items)

/-- A reader that leaves nothing of its input refuses every shorter input. -/
theorem Delimited.refuses {read : Fallible ε (List τ) α} (delimited : Delimited read)
    {tokens : List τ} {value : α} (run : read tokens = (.ok value, [])) {cut : ℕ}
    (short : cut < tokens.length) :
    ∃ failure rest, read (tokens.take cut) = (.error failure, rest) := by
  rcases early : read (tokens.take cut) with ⟨result, rest⟩
  cases result with
  | error failure => exact ⟨failure, rest, rfl⟩
  | ok other =>
      have whole := delimited _ _ _ early (tokens.drop cut)
      rw [List.take_append_drop, run] at whole
      have nothing : rest ++ tokens.drop cut = [] := (congrArg Prod.snd whole).symm
      simp at nothing
      omega

end Delimited

section Takes

variable {failure : ε}

/-- The reader takes so many tokens off its input, or fails because there are fewer. -/
def Takes (failure : ε) (read : Fallible ε (List τ) α) (length : List τ → ℕ) : Prop :=
  ∀ tokens,
    (length tokens ≤ tokens.length ∧
      ∃ value, read tokens = (.ok value, tokens.drop (length tokens))) ∨
    (tokens.length < length tokens ∧ ∃ rest, read tokens = (.error failure, rest))

theorem takes_pure (value : α) :
    Takes failure (pure value : Fallible ε (List τ) α) fun _ => 0 := by
  intro tokens
  exact .inl ⟨Nat.zero_le _, value, rfl⟩

theorem Takes.bind {read : Fallible ε (List τ) α} {next : α → Fallible ε (List τ) β}
    {length length' : List τ → ℕ} (first : Takes failure read length)
    (second : ∀ value, Takes failure (next value) length') :
    Takes failure (read >>= next) fun tokens =>
      length tokens + length' (tokens.drop (length tokens)) := by
  intro tokens
  dsimp only
  rcases first tokens with ⟨enough, value, run⟩ | ⟨short, rest, run⟩
  · rcases second value (tokens.drop (length tokens)) with
      ⟨enough', value', run'⟩ | ⟨short', rest, run'⟩
    · refine .inl ⟨?_, value', ?_⟩
      · simp only [List.length_drop] at enough'
        omega
      · rw [bind_ok run, run', List.drop_drop]
    · refine .inr ⟨?_, rest, ?_⟩
      · simp only [List.length_drop] at short'
        omega
      · rw [bind_ok run, run']
  · refine .inr ⟨by omega, rest, ?_⟩
    rw [bind_error run]

/-- What is made of the value does not matter. -/
theorem Takes.map {read : Fallible ε (List τ) α} {length : List τ → ℕ}
    (takes : Takes failure read length) (make : α → β) :
    Takes failure (do let value ← read; return make value) length := by
  have both := takes.bind fun value => takes_pure (make value)
  simpa using both

theorem Takes.congr {read : Fallible ε (List τ) α} {length length' : List τ → ℕ}
    (takes : Takes failure read length) (same : ∀ tokens, length tokens = length' tokens) :
    Takes failure read length' := by
  rwa [← funext same]

/-- The reader succeeds exactly on inputs that are long enough. -/
theorem Takes.ok_iff {read : Fallible ε (List τ) α} {length : List τ → ℕ}
    (takes : Takes failure read length) (tokens : List τ) :
    (∃ value, (read tokens).1 = .ok value) ↔ length tokens ≤ tokens.length := by
  rcases takes tokens with ⟨enough, value, run⟩ | ⟨short, rest, run⟩
  · simp [run, enough]
  · simp [run, short]

theorem Takes.fails_iff {read : Fallible ε (List τ) α} {length : List τ → ℕ}
    (takes : Takes failure read length) (tokens : List τ) :
    (read tokens).1 = .error failure ↔ tokens.length < length tokens := by
  rcases takes tokens with ⟨enough, value, run⟩ | ⟨short, rest, run⟩
  · simp [run, enough]
  · simp [run, short]

end Takes

end Fallible
