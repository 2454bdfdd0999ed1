import CallMetrics.Dict

/-! Failures as they are reported: a kind, a code within a name space, a message, and metadata.
Redacting keys overwrites the values under them and changes nothing else (`get?_redactKeys`), so
the order and the repetition of the keys do not matter. -/

namespace CallMetrics

/-- Whether a failure is part of normal use, a broken promise inside, or neither. -/
inductive FailureKind
  | expected
  | invariant
  | unexpected
  deriving DecidableEq, Repr

namespace FailureKind

def all : List FailureKind := [.expected, .invariant, .unexpected]

def label : FailureKind → String
  | expected => "expected"
  | invariant => "invariant"
  | unexpected => "unexpected"

def wireName : FailureKind → String
  | expected => "Expected"
  | invariant => "Invariant"
  | unexpected => "Unexpected"

def ofLabel? (s : String) : Option FailureKind := all.find? (·.label == s)

def ofWireName? (s : String) : Option FailureKind := all.find? (·.wireName == s)

end FailureKind

structure FailureCode where
  space : String
  name : String
  deriving DecidableEq, Repr

namespace FailureCode

def joined (c : FailureCode) : String := c.space ++ ":" ++ c.name

def core (name : String) : FailureCode := ⟨"core", name⟩

def invalidInput : FailureCode := core "invalid_input"
def notFound : FailureCode := core "not_found"
def unsupported : FailureCode := core "unsupported"
def inputOutput : FailureCode := core "io"
def internal : FailureCode := core "internal"

def shared : List FailureCode := [invalidInput, notFound, unsupported, inputOutput, internal]

end FailureCode

structure Failure where
  kind : FailureKind
  code : FailureCode
  message : String
  metadata : Dict String := ∅

namespace Failure

def expected (code : FailureCode) (message : String) : Failure := ⟨.expected, code, message, ∅⟩

def unexpected (code : FailureCode) (message : String) : Failure := ⟨.unexpected, code, message, ∅⟩

def note (f : Failure) (key value : String) : Failure :=
  { f with metadata := f.metadata.insert key value }

def display (f : Failure) : String := f.kind.label ++ " " ++ f.code.joined ++ ": " ++ f.message

end Failure

def redactedValue : String := "<redacted>"

/-- Overwrites the value under a key; a key that is absent is not added. -/
def redactKey (metadata : Dict String) (key : String) : Dict String :=
  if metadata.contains key then metadata.insert key redactedValue else metadata

def redactKeys (keys : List String) (metadata : Dict String) : Dict String :=
  keys.foldl redactKey metadata

def Failure.redact (f : Failure) (keys : List String) : Failure :=
  { f with metadata := redactKeys keys f.metadata }

theorem get?_redactKey (metadata : Dict String) (key k : String) :
    (redactKey metadata key).get? k =
      (metadata.get? k).map fun v => if k = key then redactedValue else v := by
  rw [redactKey, Dict.contains]
  cases hkey : metadata.get? key with
  | none =>
    by_cases hk : k = key
    · rw [hk, hkey]
      exact hkey
    · simp [hk]
  | some v =>
    by_cases hk : k = key
    · simp [hk, hkey]
    · simp [hk]

theorem get?_redactKeys (keys : List String) (metadata : Dict String) (k : String) :
    (redactKeys keys metadata).get? k =
      (metadata.get? k).map fun v => if k ∈ keys then redactedValue else v := by
  induction keys generalizing metadata with
  | nil => simp [redactKeys]
  | cons key rest ih =>
    have hrest := ih (redactKey metadata key)
    rw [redactKeys, List.foldl_cons, ← redactKeys, hrest, get?_redactKey, Option.map_map]
    congr 1
    funext v
    by_cases hk : k = key <;> simp [hk]

/-! A system error is known by what went wrong; an error of the program by its text alone, and it
may have a cause. -/

inductive SystemErrorKind
  | notFound
  | unsupported
  | other
  deriving DecidableEq, Repr

/-- An error with its chain of causes. A system error that wraps another error shows that error's
text in place of its own. -/
inductive ErrorChain
  | plain (message : String) (cause : Option ErrorChain)
  | system (kind : SystemErrorKind) (message : String)
  | wrapping (kind : SystemErrorKind) (inner : ErrorChain)

namespace ErrorChain

def text : ErrorChain → String
  | plain message _ => message
  | system _ message => message
  | wrapping _ inner => inner.text

def systemKind? : ErrorChain → Option SystemErrorKind
  | plain _ none => none
  | plain _ (some cause) => cause.systemKind?
  | system kind _ => some kind
  | wrapping kind _ => some kind

end ErrorChain

def SystemErrorKind.code : SystemErrorKind → FailureCode
  | notFound => .notFound
  | unsupported => .unsupported
  | other => .inputOutput

/-- An error that nobody expected: its code is that of the outermost system error in its chain. -/
def Failure.ofError (e : ErrorChain) : Failure :=
  .unexpected ((e.systemKind?.map SystemErrorKind.code).getD .internal) e.text

section Bind
variable {ε α β : Type} {x : Except ε α} {k : α → Except ε β}

/-- What succeeds has succeeded in both of its steps. -/
theorem bind_eq_ok_iff {b : β} : x >>= k = .ok b ↔ ∃ a, x = .ok a ∧ k a = .ok b := by
  cases x <;> simp [bind, Except.bind]

theorem map_eq_ok_iff {f : α → β} {b : β} : x.map f = .ok b ↔ ∃ a, x = .ok a ∧ f a = b := by
  cases x <;> simp [Except.map]

theorem map_eq_error_iff {f : α → β} {e : ε} : x.map f = .error e ↔ x = .error e := by
  cases x <;> simp [Except.map]

theorem mapError_eq_ok_iff {ε' : Type} {f : ε → ε'} {a : α} : x.mapError f = .ok a ↔ x = .ok a := by
  cases x with
  | error e => exact ⟨nofun, nofun⟩
  | ok b =>
    have hmap : (Except.ok b : Except ε α).mapError f = .ok b := rfl
    rw [hmap, Except.ok.injEq, Except.ok.injEq]

def error? : Except ε α → Option ε
  | .error e => some e
  | .ok _ => none

@[simp] theorem error?_eq_some_iff {e : ε} : error? x = some e ↔ x = .error e := by
  cases x <;> simp [error?]

@[simp] theorem error?_eq_none_iff : error? x = none ↔ ∃ a, x = .ok a := by
  cases x <;> simp [error?]

/-- The first step that fails gives the error, where the second one fails alike whatever the first
one gives. -/
theorem error?_bind {later : Option ε} (h : ∀ a, error? (k a) = later) :
    error? (x >>= k) = (error? x).or later := by
  cases x with
  | error e => rfl
  | ok a => exact h a

end Bind

end CallMetrics
