import CoreAudit.Text.Basic

/-!
# Log records

Every stage leaves records of what it did. A record has a level, a channel and a text; a reader
of the log chooses the least level to be shown.

Models the records that the modelled functions leave. Out of scope: their times and their layout.
-/

namespace CoreAudit

/-- How grave a record is. -/
inductive Level where
  | debug
  | info
  | warning
  | error
  deriving Repr, DecidableEq

namespace Level

/-- The rank of a level; graver levels rank higher. -/
def rank : Level → Nat
  | debug => 0
  | info => 1
  | warning => 2
  | error => 3

/-- The name of a level. -/
def name : Level → Text
  | debug => "DEBUG".toList
  | info => "INFO".toList
  | warning => "WARNING".toList
  | error => "ERROR".toList

/-- The levels, the mildest first. -/
def all : List Level := [debug, info, warning, error]

/-- The level of a name. -/
def ofName? (t : Text) : Option Level := all.find? fun l => l.name == t

end Level

/-- The stage that left a record. -/
inductive Channel where
  | benchmark
  | scrambler
  | tools
  | validation
  | audit
  | configuration
  | pool
  deriving Repr, DecidableEq

/-- The name under which a channel's records are shown. -/
def Channel.name : Channel → Text
  | benchmark => "corecheck.benchmark".toList
  | scrambler => "corecheck.scrambler".toList
  | tools => "corecheck.bin_solver".toList
  | validation => "corecheck.validation".toList
  | audit => "corecheck.pipeline".toList
  | configuration => "corecheck.global_params.paths".toList
  | pool => "corecheck.parallel".toList

/-- One record. -/
structure LogRecord where
  level : Level
  channel : Channel
  text : Text
  deriving Repr, DecidableEq

end CoreAudit
