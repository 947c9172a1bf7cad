import JvmOutline.Outline.Error
import JvmOutline.Text.Quoted

/-!
# The log — what a computation reports on its way

`Logged α` is a computation that reports events in order and then returns a value or fails.  The
events that were reported stay, whichever way it ends; after a failure nothing more is reported.

`LogEvent` lists the events; each has a level and a text.  What else is named in a text has a text
of its own there (`LogText`).
-/

namespace JvmOutline

/-- The levels of log records. -/
inductive LogLevel where
  | debug
  | trace
  deriving DecidableEq

/-- The name of a level. -/
def LogLevel.name : LogLevel → String
  | debug => "DEBUG"
  | trace => "TRACE"

/-- What has a text in the log. -/
class LogText (α : Type) where
  text : α → String

/-- Text is quoted in the log. -/
instance : LogText String := ⟨quoted⟩

/-- What is reported.  A location is given by its text. -/
inductive LogEvent where
  /-- The outline of a class is begun. -/
  | begun (name : String)
  /-- The outline of a class is done. -/
  | done (name : String) (methods fields : Nat)
  /-- A static initializer is left out. -/
  | skippedInitializer (scope : Scope)
  /-- An attribute is left out. -/
  | ignored (scope : Scope) (name : String)
  /-- The outline for a location was at hand. -/
  | hit (location : String)
  /-- The outline for a location was not at hand. -/
  | miss (location : String)
  /-- The outline for a location is dropped. -/
  | evicted (location : String)
  /-- All outlines are dropped. -/
  | clearing (count : Nat)
  deriving DecidableEq

namespace LogEvent

/-- The level at which an event is reported. -/
def level : LogEvent → LogLevel
  | skippedInitializer _ => .trace
  | ignored _ _ => .trace
  | _ => .debug

/-- The text of an event. -/
def message : LogEvent → String
  | begun name => "Decompiling " ++ name
  | done name methods fields =>
    "Decompiled " ++ name ++ " (" ++ toString methods ++ " methods, " ++ toString fields ++
      " fields)"
  | skippedInitializer scope => scope.text ++ ": skipping static initializer"
  | ignored scope name => scope.text ++ ": ignoring " ++ name
  | hit location => "Stub cache hit for " ++ location
  | miss location => "Stub cache miss for " ++ location
  | evicted location => "Evicted " ++ location ++ " from stub cache"
  | clearing count => "Clearing " ++ toString count ++ " stub cache entries"

end LogEvent

/-- A computation that reports events and then returns a value or fails. -/
structure Logged (α : Type) where
  log : List LogEvent
  result : Except OutlineError α

namespace Logged

variable {α β : Type}

/-- Returns a value and reports nothing. -/
protected def pure (a : α) : Logged α := ⟨[], .ok a⟩

/-- Runs a second computation on the value of a first one, if there is one. -/
protected def bind (x : Logged α) (f : α → Logged β) : Logged β :=
  match x.result with
  | .ok a =>
    let y := f a
    ⟨x.log ++ y.log, y.result⟩
  | .error e => ⟨x.log, .error e⟩

instance : Monad Logged where
  pure := Logged.pure
  bind := Logged.bind

/-- Reports an event. -/
def report (event : LogEvent) : Logged Unit := ⟨[event], .ok ()⟩

/-- Fails. -/
def fail (e : OutlineError) : Logged α := ⟨[], .error e⟩

/-- Takes over an outcome and reports nothing. -/
def check (x : Except OutlineError α) : Logged α := ⟨[], x⟩

/-! ### The monad laws -/

@[ext] theorem ext {x y : Logged α} (hl : x.log = y.log) (hr : x.result = y.result) : x = y := by
  cases x; cases y; simp_all

theorem pure_def (a : α) : (pure a : Logged α) = ⟨[], .ok a⟩ := rfl

theorem bind_ok {log : List LogEvent} {a : α} (f : α → Logged β) :
    ((⟨log, .ok a⟩ : Logged α) >>= f) = ⟨log ++ (f a).log, (f a).result⟩ := rfl

instance : LawfulMonad Logged := by
  refine LawfulMonad.mk' Logged ?_ ?_ ?_
  · rintro α ⟨log, e | a⟩
    · rfl
    · exact ext (List.append_nil log) rfl
  · exact fun _ _ => ext (List.nil_append _) rfl
  · rintro α β γ ⟨log, e | a⟩ f g
    · rfl
    · rw [bind_ok, bind_ok]
      rcases h : f a with ⟨l, e | b⟩
      · rfl
      · exact ext (List.append_assoc _ _ _) rfl

end Logged

end JvmOutline
