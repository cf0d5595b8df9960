import Reckoner.Error
import Reckoner.Expr.Text

/-!
# Log records

While it works, a calculator reports what it passes over in a text, what it has read,
and what it does with its cache. A record holds what happened; its level and its message
are derived from that.
-/

set_option autoImplicit false

namespace Reckoner

/-- How important a record is. -/
inductive LogLevel where
  | warning | debug
  deriving DecidableEq, Repr

/-- A thing that a calculator reports. -/
inductive LogRecord where
  /-- A lenient reading dropped or mended something. -/
  | mended (anomaly : Located Anomaly)
  /-- A text was read as the tree. -/
  | parsed (text : String) (tree : Expr)
  /-- The tree of a text was found in the cache. -/
  | cacheHit (text : String)
  /-- The cache held as many trees as it may, and was emptied. -/
  | cacheFull (entries : Nat)
  deriving DecidableEq

/-- The message of a lenient reading that goes on behind the anomaly. -/
def Anomaly.warning (position : Nat) : Anomaly → String
  | .strayChar c =>
    "dropping unexpected character " ++ Text.quotedChar c ++ " at " ++ position.repr
  | .malformedNumber run =>
    "malformed number '" ++ run ++ "' at " ++ position.repr ++ ", using its valid prefix"
  | .unknownMember name =>
    "dropping unknown member 'Math." ++ name ++ "' at " ++ position.repr

namespace LogRecord

/-- What is passed over deserves a warning, everything else does not. -/
def level : LogRecord → LogLevel
  | mended _ => .warning
  | _ => .debug

/-- The record in words. -/
def message : LogRecord → String
  | mended anomaly => anomaly.value.warning anomaly.position
  | parsed text tree => "parsed " ++ Text.quoted text ++ " as " ++ tree.text
  | cacheHit text => "parse cache hit for " ++ Text.quoted text
  | cacheFull entries => "parse cache full (" ++ entries.repr ++ " entries), clearing"

/-- The level and the message of a record. -/
def entry (record : LogRecord) : LogLevel × String :=
  (record.level, record.message)

end LogRecord

end Reckoner
