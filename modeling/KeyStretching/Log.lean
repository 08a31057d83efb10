import KeyStretching.Algorithm

/-!
# The log

Some operations report what they do as they go: that a key is being derived, that a lane is being
mixed, that a credential was rejected. A report is an `Event` with a level, a message and named
fields; it never holds a password, a salt or a key. An operation that reports yields a `Logged`
result, which is a value together with the events in the order of their appearance.
-/

namespace KeyStretching

/-- How much an event matters. -/
inductive Level where
  | trace
  | debug
  | warn
  deriving DecidableEq, Repr

/-- The conventional name of a level. -/
def Level.name : Level → String
  | trace => "TRACE"
  | debug => "DEBUG"
  | warn => "WARN"

/-- A report. -/
inductive Event where
  /-- A key is about to be derived with admissible cost parameters. -/
  | derivingKey (algorithm : Algorithm) (n r p : UInt32) (keyLen : Nat)
  /-- A lane is about to be mixed. -/
  | mixingLane (lane : Nat)
  /-- A credential of the given kind could not be read. -/
  | rejecting (kind : String) (cause : Error)
  deriving DecidableEq, Repr

namespace Event

/-- The level of an event. -/
def level : Event → Level
  | derivingKey .. => .debug
  | mixingLane .. => .trace
  | rejecting .. => .warn

/-- The message of an event. -/
def message : Event → String
  | derivingKey .. => "deriving scrypt key"
  | mixingLane .. => "mixing lane"
  | rejecting kind _ => s!"rejecting unreadable {kind} credential"

/-- The named fields of an event. -/
def fields : Event → List (String × String)
  | derivingKey algorithm n r p keyLen =>
    [("algorithm", algorithm.name), ("n", toString n), ("r", toString r), ("p", toString p),
      ("dk_len", toString keyLen)]
  | mixingLane lane => [("lane", toString lane)]
  | rejecting _ cause => [("error", cause.message)]

end Event

/-- A value together with the events reported on the way to it. -/
structure Logged (α : Type) where
  value : α
  events : List Event

namespace Logged

instance : Monad Logged where
  pure x := ⟨x, []⟩
  bind x f :=
    let y := f x.value
    ⟨y.value, x.events ++ y.events⟩

/-- Reports an event. -/
def emit (event : Event) : Logged Unit := ⟨(), [event]⟩

/-- The events of a level. -/
def eventsAt {α : Type} (x : Logged α) (level : Level) : List Event :=
  x.events.filter (·.level = level)

section

variable {α β : Type}

@[simp] theorem value_pure (x : α) : (pure x : Logged α).value = x := rfl

@[simp] theorem events_pure (x : α) : (pure x : Logged α).events = [] := rfl

@[simp] theorem value_bind (x : Logged α) (f : α → Logged β) :
    (x >>= f).value = (f x.value).value := rfl

@[simp] theorem events_bind (x : Logged α) (f : α → Logged β) :
    (x >>= f).events = x.events ++ (f x.value).events := rfl

@[simp] theorem events_emit (event : Event) : (emit event).events = [event] := rfl

end

end Logged

end KeyStretching
