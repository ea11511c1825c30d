/-!
# Logging

A record has a level, an optional module and a text, and is written as one line. Records above the
current level are dropped; the current level never exceeds the limit of the build.
-/

namespace DiskStack

structure Build where
  readOnly : Bool := false
  verbose : Bool := false
  deriving DecidableEq, Repr

/-- A log level, or `off` as a filter that drops every record. -/
inductive LogLevel
  | off
  | error
  | warn
  | info
  | debug
  | trace
  deriving DecidableEq, Repr

namespace LogLevel

def rank : LogLevel → Nat
  | .off => 0
  | .error => 1
  | .warn => 2
  | .info => 3
  | .debug => 4
  | .trace => 5

def min (a b : LogLevel) : LogLevel := if b.rank < a.rank then b else a

def render : LogLevel → String
  | .off => "OFF"
  | .error => "ERROR"
  | .warn => "WARN"
  | .info => "INFO"
  | .debug => "DEBUG"
  | .trace => "TRACE"

/-- The tag that opens a line, padded so that texts line up. -/
def tag : LogLevel → String
  | .off => ""
  | .error => "[ERROR] "
  | .warn => "[WARN]  "
  | .info => "[INFO]  "
  | .debug => "[DEBUG] "
  | .trace => "[TRACE] "

end LogLevel

def Build.maxLevel (b : Build) : LogLevel := if b.verbose then .trace else .info

structure LogRecord where
  level : LogLevel
  source : Option String
  text : String
  deriving DecidableEq, Repr

def LogRecord.line (r : LogRecord) : String :=
  r.level.tag ++ (match r.source with
    | some source => "[" ++ source ++ "] "
    | none => "") ++ r.text

structure Logger where
  initialized : Bool := false
  level : LogLevel := .info
  /-- The level past which records are not even handed to the logger. -/
  max : LogLevel := .off
  deriving DecidableEq, Repr

namespace Logger

def alreadyInstalled : String :=
  "attempted to set a logger after the logging system was already initialized"

/-- Installs the logger once, at the limit of the build. -/
def install (b : Build) (l : Logger) : Except String Logger :=
  if l.initialized then .error alreadyInstalled
  else .ok ⟨true, b.maxLevel, b.maxLevel⟩

def setLevel (b : Build) (level : LogLevel) (l : Logger) : Logger :=
  { l with level := level.min b.maxLevel, max := level.min b.maxLevel }

def enabled (l : Logger) (level : LogLevel) : Bool := level.rank ≤ l.level.rank

/-- The line that a record handed straight to the logger leaves. -/
def write (l : Logger) (r : LogRecord) : Option String :=
  if l.initialized ∧ l.enabled r.level then some r.line else none

def emit (l : Logger) (r : LogRecord) : Option String :=
  if r.level.rank ≤ l.max.rank then l.write r else none

end Logger

end DiskStack
