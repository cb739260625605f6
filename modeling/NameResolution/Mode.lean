import NameResolution.SwitchSet

/-!
# Modes

Every context carries a set of modes. Most describe one syntactic position and stop applying once
resolution leaves it; the sticky ones say what kind of expression is being resolved and hold in
every nested scope.
-/

namespace NameResolution

inductive Mode where
  /-- Implicit values and views may be searched. -/
  | implicitsEnabled
  | macrosEnabled
  /-- Extension-method conversions may be applied. -/
  | enrichmentEnabled
  /-- Inside the arguments of a self or super constructor call. -/
  | selfSuperCall
  | inPatternAlternative
  | starPatterns
  /-- The second attempt of a computation that is tried twice. -/
  | secondTry
  | returnExpression
  /-- A type constructor may appear unapplied. -/
  | typeConstructorAllowed
  /-- A constructor name may be followed by an argument list. -/
  | constructorSuffix
  | returnsSeen
  | superInit
  | namedApplyBlock
  | superCallArguments
  /-- Ambiguities go straight to the sink. -/
  | ambiguousErrors
  | suppressDeadArgumentWarning
  | diagnoseUsedDefaults
  | expression
  | pattern
  | type
deriving DecidableEq, Repr

instance : Switch Mode where
  all := [.implicitsEnabled, .macrosEnabled, .enrichmentEnabled, .selfSuperCall,
    .inPatternAlternative, .starPatterns, .secondTry, .returnExpression, .typeConstructorAllowed,
    .constructorSuffix, .returnsSeen, .superInit, .namedApplyBlock, .superCallArguments,
    .ambiguousErrors, .suppressDeadArgumentWarning, .diagnoseUsedDefaults, .expression, .pattern,
    .type]
  position
    | .implicitsEnabled => 0
    | .macrosEnabled => 1
    | .enrichmentEnabled => 2
    | .selfSuperCall => 4
    | .inPatternAlternative => 5
    | .starPatterns => 6
    | .secondTry => 7
    | .returnExpression => 8
    | .typeConstructorAllowed => 9
    | .constructorSuffix => 10
    | .returnsSeen => 11
    | .superInit => 12
    | .namedApplyBlock => 13
    | .superCallArguments => 14
    | .ambiguousErrors => 16
    | .suppressDeadArgumentWarning => 17
    | .diagnoseUsedDefaults => 18
    | .expression => 24
    | .pattern => 25
    | .type => 26
  label
    | .implicitsEnabled => "IMPLICITS_ENABLED"
    | .macrosEnabled => "MACROS_ENABLED"
    | .enrichmentEnabled => "ENRICHMENT_ENABLED"
    | .selfSuperCall => "SELF_SUPER_CALL"
    | .inPatternAlternative => "IN_PAT_ALTERNATIVE"
    | .starPatterns => "STAR_PATTERNS"
    | .secondTry => "SECOND_TRY"
    | .returnExpression => "RETURN_EXPR"
    | .typeConstructorAllowed => "TYPE_CONSTRUCTOR_ALLOWED"
    | .constructorSuffix => "CONSTRUCTOR_SUFFIX"
    | .returnsSeen => "RETURNS_SEEN"
    | .superInit => "SUPER_INIT"
    | .namedApplyBlock => "NAMED_APPLY_BLOCK"
    | .superCallArguments => "SUPER_CALL_ARGS"
    | .ambiguousErrors => "AMBIGUOUS_ERRORS"
    | .suppressDeadArgumentWarning => "SUPPRESS_DEAD_ARG_WARNING"
    | .diagnoseUsedDefaults => "DIAG_USED_DEFAULTS"
    | .expression => "EXPR"
    | .pattern => "PATTERN"
    | .type => "TYPE"

/-- The modes in force at a context. -/
abbrev Modes := SwitchSet Mode

namespace Modes

/-- The modes that hold in every scope nested in an expression. -/
def sticky : Modes := .ofList [.expression, .pattern, .type]

/-- The modes of a fresh root context. -/
def initial : Modes :=
  .ofList [.implicitsEnabled, .enrichmentEnabled, .macrosEnabled, .ambiguousErrors]

/-- The sticky modes among those in force. -/
def onlySticky (modes : Modes) : Modes := modes ∩ sticky

/-- Turns the first modes on, then the others off. -/
def adjust (modes enable disable : Modes) : Modes := (modes ∪ enable) \ disable

def describe (modes : Modes) : String :=
  let content := if modes.bits == 0 then "0x0" else String.intercalate " | " modes.labels
  s!"ContextMode({content})"

end Modes

end NameResolution
