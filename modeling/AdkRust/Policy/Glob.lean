import AdkRust.Governance.Gate
import AdkRust.Lib.Wildcard

/-!
# Policy globs

How a rule names the tools it is for (`policy.rs`, `matcher.rs`): `*` is to match any run of
characters, `?` exactly one. Both matchers compare a character with the name before they look for a star.

* `globMatches`, `harnessGlobMatches`: the matchers of policy rules and of standing rules.
* `globMatches_iff`: a policy glob matches what splits where a star before a star of the name takes just that.
* `PolicyRule.matches_`: the calls a rule is for.
* `globMatches_exact`: **a policy glob matches what it says where such a split exists when any does.**
-/

namespace Adk

/-! ## Matching -/

/-- The loop over two texts, for some way to take one character (`glob_matches`). -/
def globLoop (meets : Char → Char → Bool) (pattern name : String) : Bool :=
  (Wildcard.State.start pattern.toList name.toList : Wildcard.State meets).run (· == '*')

/-- Matches `name` against a glob of a policy rule. -/
def globMatches (pattern name : String) : Bool := globLoop (fun p n => p == '?' || p == n) pattern name

/-- Matches `name` against a glob of a standing rule. -/
def harnessGlobMatches (pattern name : String) : Bool := globLoop (fun p n => p == '?' || p == n) pattern name

/-! ## What a pattern says -/

/-- What a pattern character takes: `?` one character, `*` any run of them, another just itself. -/
def Takes (symbol : Char) (run : List Char) : Prop :=
  if symbol = '?' then run.length = 1 else if symbol = '*' then True else run = [symbol]

/-- The name splits into what the pattern's characters take. -/
def GlobMatches (pattern name : String) : Prop :=
  ∃ runs : List (List Char), runs.flatten = name.toList ∧ List.Forall₂ Takes pattern.toList runs

/-- The name splits that way, and each star at which the rest of the name begins with a star takes just that. -/
def StarsTakeStars (pattern name : String) : Prop :=
  Wildcard.Splits (fun symbol rest run => Takes symbol run ∧ (symbol = '*' → rest.head? = some '*' → run = ['*']))
    pattern.toList name.toList

theorem globMatches_def {pattern name : String} :
    GlobMatches pattern name ↔ Wildcard.Splits (fun symbol _ run => Takes symbol run) pattern.toList name.toList :=
  Wildcard.splits_iff_runs.symm

theorem StarsTakeStars.globMatches {pattern name : String} (h : StarsTakeStars pattern name) :
    GlobMatches pattern name :=
  globMatches_def.mpr (h.mono fun _ _ _ htks => htks.1)

theorem splits_congr {reads reads' : Char → List Char → List Char → Prop} {pattern name : List Char}
    (h : ∀ symbol run rest, reads symbol (run ++ rest) run ↔ reads' symbol (run ++ rest) run) :
    Wildcard.Splits reads pattern name ↔ Wildcard.Splits reads' pattern name := by
  constructor
  · intro hspls
    induction hspls with
    | nil => exact .nil
    | cons hrd _ ih => exact .cons ((h _ _ _).mp hrd) ih
  · intro hspls
    induction hspls with
    | nil => exact .nil
    | cons hrd _ ih => exact .cons ((h _ _ _).mpr hrd) ih

theorem globMatches_iff (pattern name : String) : globMatches pattern name = true ↔ StarsTakeStars pattern name := by
  rw [globMatches, globLoop, Wildcard.run_start, StarsTakeStars]
  apply splits_congr
  intro symbol run rest
  by_cases hone : symbol = '?'
  · subst hone
    cases run <;> cases rest <;> simp [Wildcard.Reading, Takes]
  · by_cases hstar : symbol = '*'
    · subst hstar
      cases run <;> cases rest <;> simp [Wildcard.Reading, Takes] <;> grind
    · cases run <;> cases rest <;> simp [Wildcard.Reading, Takes, hone, hstar] <;> grind

/-! ## Rules -/

/-- One rule of a policy. A predicate is what it holds of. -/
structure PolicyRule where
  toolPattern : String
  agentPattern : Option String := none
  tenant : Option String := none
  class_ : Option String := none
  effect : Option ToolEffect := none
  predicates : List (Value → Bool) := []
  decision : PolicyDecision

namespace PolicyRule

def identityMatches (request : ToolPolicyRequest) (required : Option String)
    (actual : AgentPrincipal → Option String) : Bool :=
  required.all fun required => (request.acting.bind fun acting => actual acting.agent) = some required

/-- What a rule asks for beside the tool's name. -/
def matchesCaller (rule : PolicyRule) (request : ToolPolicyRequest) : Bool :=
  (rule.agentPattern.all fun pattern =>
    request.acting.any fun acting => globMatches pattern acting.agent.id.asStr) &&
  identityMatches request rule.tenant (·.tenant) &&
  identityMatches request rule.class_ (·.class_) &&
  (rule.effect.all fun effect => effect = request.effect) &&
  rule.predicates.all fun holds => holds request.args

def matches_ (rule : PolicyRule) (request : ToolPolicyRequest) : Bool :=
  globMatches rule.toolPattern request.toolName && rule.matchesCaller request

end PolicyRule

theorem globMatches_star (name : String) : GlobMatches "*" name := by
  refine ⟨[name.toList], List.flatten_singleton, ?_⟩
  change List.Forall₂ Takes ['*'] [name.toList]
  exact .cons (by simp [Takes]) .nil

theorem starsTakeStars_star (name : String) :
    StarsTakeStars "*" name ↔ (name.toList.head? = some '*' → name.toList = ['*']) := by
  change Wildcard.Splits _ ['*'] name.toList ↔ _
  rw [Wildcard.splits_cons]
  constructor
  · rintro ⟨run, rest, hname, htks, hrest⟩ hhead
    rw [Wildcard.splits_nil.mp hrest, List.append_nil] at hname
    rw [hname, htks.2 rfl hhead]
  · intro h
    exact ⟨name.toList, [], (List.append_nil _).symm, ⟨by simp [Takes], fun _ => h⟩, .nil⟩

/-- **A glob of a policy rule or of a standing rule matches what it says exactly where a name that splits along the
pattern also splits so that each star before a star of the name takes just that.** A rule for all tools matches no
other name that begins with a star. -/
theorem globMatches_exact (pattern name : String) :
    ((globMatches pattern name = true ↔ GlobMatches pattern name) ↔
      (GlobMatches pattern name → StarsTakeStars pattern name)) ∧
    ((harnessGlobMatches pattern name = true ↔ GlobMatches pattern name) ↔
      (GlobMatches pattern name → StarsTakeStars pattern name)) ∧
    ∀ (rule : PolicyRule) request, rule.toolPattern = "*" → (rule.matches_ request = true ↔
      (request.toolName.toList.head? = some '*' → request.toolName.toList = ['*']) ∧
        rule.matchesCaller request = true) := by
  have hexact : (globMatches pattern name = true ↔ GlobMatches pattern name) ↔
      (GlobMatches pattern name → StarsTakeStars pattern name) := by
    rw [globMatches_iff]
    exact ⟨fun h => h.mpr, fun h => ⟨StarsTakeStars.globMatches, h⟩⟩
  refine ⟨hexact, hexact, fun rule request hrule => ?_⟩
  rw [PolicyRule.matches_, hrule, Bool.and_eq_true, globMatches_iff, starsTakeStars_star]

/-- A rule for all tools does not match a name that begins with a star. -/
theorem not_globMatches_exact :
    ¬ ∀ pattern name, globMatches pattern name = true ↔ GlobMatches pattern name := by
  intro h
  have hmatches := (globMatches_iff ..).mp ((h "*" "*a").mpr (globMatches_star "*a"))
  exact absurd ((starsTakeStars_star "*a").mp hmatches rfl) (by decide)

end Adk
