/-!
Log lines as data. An operation that logs is written for any monad that takes log lines; `Logged` keeps them beside
the value, in the order in which they were written.
-/
namespace Gridbook

inductive LogLevel where
  | warn
  | debug
  deriving DecidableEq

def LogLevel.label : LogLevel → String
  | .warn => "WARN"
  | .debug => "DEBUG"

structure LogLine where
  level : LogLevel
  message : String
  deriving DecidableEq

def LogLine.text (line : LogLine) : String :=
  line.level.label ++ " " ++ line.message

class MonadLog (m : Type → Type) where
  log : LogLine → m Unit

def warn [MonadLog m] (message : String) : m Unit := MonadLog.log ⟨.warn, message⟩
def debug [MonadLog m] (message : String) : m Unit := MonadLog.log ⟨.debug, message⟩

/-- A value and the lines logged on the way to it. -/
structure Logged (α : Type) where
  value : α
  log : List LogLine
  deriving DecidableEq

namespace Logged

instance : Monad Logged where
  pure a := ⟨a, []⟩
  bind x f := ⟨(f x.value).value, x.log ++ (f x.value).log⟩

instance : MonadLog Logged where
  log line := ⟨(), [line]⟩

@[simp] theorem value_pure (a : α) : (pure a : Logged α).value = a := rfl
@[simp] theorem log_pure (a : α) : (pure a : Logged α).log = [] := rfl

@[simp] theorem value_bind (x : Logged α) (f : α → Logged β) :
    (x >>= f).value = (f x.value).value := rfl

@[simp] theorem log_bind (x : Logged α) (f : α → Logged β) :
    (x >>= f).log = x.log ++ (f x.value).log := rfl

end Logged
end Gridbook
