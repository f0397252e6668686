import CacheFacade.Bytes

/-!
Log lines. Every operation gives the lines that it writes along with its result.
-/

namespace CacheFacade

inductive Level where
  | debug
  | info
  | warn
  | error
deriving Repr, DecidableEq

def Level.name : Level → String
  | debug => "DEBUG"
  | info => "INFO"
  | warn => "WARN"
  | error => "ERROR"

structure Line where
  level : Level
  message : String
deriving Repr, DecidableEq

namespace Line

/-- An operation that went well, in detail. -/
def done (message : String) : Line := ⟨.debug, "✓ " ++ message⟩

def ready (message : String) : Line := ⟨.info, "✓ " ++ message⟩

def warning (message : String) : Line := ⟨.warn, "⚠ " ++ message⟩

def text (l : Line) : String := l.level.name ++ " " ++ l.message

end Line
end CacheFacade
