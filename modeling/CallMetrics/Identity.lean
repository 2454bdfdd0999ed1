import CallMetrics.Key.Segment
import CallMetrics.Timing.Stacks

/-! Who a call is made for. Users are bound to a task for the time of its scope, and to a thread
for the life of a guard; an identity answers from what is bound, or otherwise. -/

namespace CallMetrics

inductive IdentityError
  | unavailable (reason : String)
  | invalid (e : KeyError)
  deriving DecidableEq, Repr

namespace IdentityError

def message : IdentityError → String
  | unavailable reason => "identity lookup failed: " ++ reason
  | invalid e => "identity lookup returned an invalid user id: " ++ e.message

def toFailure (e : IdentityError) : Failure :=
  .unexpected ⟨"identity", "lookup_failed"⟩ e.message

end IdentityError

structure Lookup where
  taskUser : Option UserId
  threadUser : Option UserId
  turn : Nat

structure Identity where
  answer : Lookup → Except IdentityError UserId

namespace Identity

def fixed (user : UserId) : Identity := ⟨fun _ => .ok user⟩

def failing (reason : String) : Identity := ⟨fun _ => .error (.unavailable reason)⟩

def reading (raw : String) : Identity := ⟨fun _ => (UserId.read raw).mapError .invalid⟩

/-- The user bound to the task, else the one bound to the thread. -/
def bound : Identity := ⟨fun l =>
  match l.taskUser, l.threadUser with
  | some user, _ => .ok user
  | none, some user => .ok user
  | none, none => .error (.unavailable "no user bound to the current execution context")⟩

end Identity

/-- Remembers the binding that it replaced, which comes back when the guard is dropped. -/
structure UserGuard where
  replaced : Option UserId

structure ThreadUsers where
  entries : List (Nat × UserId)

namespace ThreadUsers

def empty : ThreadUsers := ⟨[]⟩

def get? (b : ThreadUsers) (thread : Nat) : Option UserId := b.entries.lookup thread

def set (b : ThreadUsers) (thread : Nat) (user : Option UserId) : ThreadUsers :=
  let others := b.entries.filter (·.1 != thread)
  ⟨match user with
    | none => others
    | some u => (thread, u) :: others⟩

def enter (b : ThreadUsers) (thread : Nat) (user : UserId) : UserGuard × ThreadUsers :=
  (⟨b.get? thread⟩, b.set thread (some user))

def drop (b : ThreadUsers) (thread : Nat) (guard : UserGuard) : ThreadUsers :=
  b.set thread guard.replaced

end ThreadUsers

/-- Where code runs: on a thread, perhaps in a task scope and with a user bound to the task. -/
structure Place where
  thread : Nat
  scope : Option Nat := none
  user : Option UserId := none

namespace Place

def context (p : Place) : Context :=
  match p.scope with
  | some n => .scope n
  | none => .thread p.thread

end Place
end CallMetrics
