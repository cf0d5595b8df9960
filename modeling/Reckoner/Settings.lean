import Reckoner.Expr.Fold
import Reckoner.LogRecord

/-!
# Reading a formula

The settings say how strictly a text is read, how deep an expression may be, and whether
constants are folded. From a text they lead to its expression, or to the first thing
that is wrong with it; what is wrong with the tokens is found before any of them is
looked at as part of an expression.
-/

set_option autoImplicit false

namespace Reckoner

/-- What to do with text that is no token. -/
inductive Strictness where
  /-- Fail. -/
  | strict
  /-- Drop it, or make the best of it, and go on. -/
  | lenient
  deriving DecidableEq, Repr

/-- How formulas are read. -/
structure Settings where
  strictness : Strictness := .strict
  /-- The greatest nesting and the greatest height of an expression. -/
  depthLimit : Nat := 256
  /-- Whether operations on literals are carried out at once. -/
  folding : Bool := false
  deriving DecidableEq, Repr

namespace Settings

/-- The tokens of the lexemes, as strictly as the settings ask for. -/
def tokens (settings : Settings) (scanned : Scanned) : Except (Located Anomaly) TokenStream :=
  match settings.strictness with
  | .strict => scanned.strict
  | .lenient => .ok scanned.lenient

/-- What the settings make of the tree of a formula. -/
def finished (settings : Settings) (tree : Expr) : Expr :=
  if settings.folding then tree.folded else tree

/-- The expression of the lexemes. -/
def expression (settings : Settings) (scanned : Scanned) : Except Error Expr := do
  let stream ← (settings.tokens scanned).mapError .lexical
  let tree ← (Expr.ofTokens settings.depthLimit stream).mapError .syntactic
  pure (settings.finished tree)

/-- The expression of a text. -/
def parse (settings : Settings) (text : String) : Except Error Expr :=
  settings.expression (scan text)

/-- What is reported about the lexemes: a strict reading passes over nothing. -/
def warnings (settings : Settings) (scanned : Scanned) : List LogRecord :=
  match settings.strictness with
  | .strict => []
  | .lenient => scanned.anomalies.map .mended

/-- The expression of a text, and what is reported about the reading. -/
def report (settings : Settings) (text : String) : Except Error Expr × List LogRecord :=
  let scanned := scan text
  let result := settings.expression scanned
  let success := match result with
    | .ok tree => [.parsed text tree]
    | .error _ => []
  (result, settings.warnings scanned ++ success)

end Settings

/-- The expression of a text, read strictly with the usual limit and without folding. -/
def Expr.parse (text : String) : Except Error Expr :=
  ({} : Settings).parse text

end Reckoner
