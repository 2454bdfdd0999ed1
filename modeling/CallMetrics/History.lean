import CallMetrics.Clock
import CallMetrics.Config.Basic
import CallMetrics.Failure

/-! A bounded history of snapshots. Each snapshot has a key; keys are kept in order, and a full
history forgets the snapshot with the smallest key. Numeric keys are milliseconds that always
increase. Time stamps are texts such as `9:05:00 AM`, which are ordered as texts and repeat every
day. -/

namespace CallMetrics

inductive OrderKey
  | numeric (millis : Int)
  | stamp (text : String)
  deriving DecidableEq, Repr

namespace OrderKey

def text : OrderKey → String
  | numeric millis => toString millis
  | stamp text => text

/-- Numbers come before texts, texts in the order of their characters. -/
def lt : OrderKey → OrderKey → Bool
  | numeric a, numeric b => a < b
  | numeric _, stamp _ => true
  | stamp _, numeric _ => false
  | stamp a, stamp b => a < b

end OrderKey

def twoDigits (n : Nat) : String := (if n < 10 then "0" else "") ++ toString n

/-- The time of day, in hours of a twelve-hour clock. -/
def timeOfDay (millis : Int) : String :=
  let seconds := (millis.fdiv 1000 % 86400).toNat
  let hour := seconds / 3600
  let shown := if hour % 12 = 0 then 12 else hour % 12
  toString shown ++ ":" ++ twoDigits (seconds % 3600 / 60) ++ ":" ++ twoDigits (seconds % 60) ++
    (if hour < 12 then " AM" else " PM")

structure KeyCollision where
  key : OrderKey
  deriving DecidableEq, Repr

def KeyCollision.toFailure (e : KeyCollision) : Failure :=
  (Failure.expected ⟨"history", "key_collision"⟩
    ("history key `" ++ e.key.text ++ "` already holds an entry")).note "orderKey" e.key.text

structure History (α : Type) where
  kind : HistoryKey
  /-- How many snapshots are kept, less than one counting as one. -/
  limit : Nat
  entries : List (OrderKey × List α)
  /-- The largest numeric key that was given. -/
  last : Int64

namespace History
variable {α : Type}

def new (kind : HistoryKey) (limit : Nat) : History α := ⟨kind, limit, [], .minValue⟩

def capacity (h : History α) : Nat := max h.limit 1

def keys (h : History α) : List OrderKey := h.entries.map (·.1)

def size (h : History α) : Nat := h.entries.length

def rows (h : History α) : List (OrderKey × α) :=
  h.entries.flatMap fun e => e.2.map fun row => (e.1, row)

/-- Puts a snapshot in the place of its key; one that stood there gives way. -/
def insertEntry (key : OrderKey) (snapshot : List α) :
    List (OrderKey × List α) → List (OrderKey × List α)
  | [] => [(key, snapshot)]
  | e :: rest =>
    if key.lt e.1 then (key, snapshot) :: e :: rest
    else if key = e.1 then (key, snapshot) :: rest
    else e :: insertEntry key snapshot rest

/-- Keeps a snapshot under a key, after forgetting the one with the smallest key if need be. -/
def keep (h : History α) (key : OrderKey) (snapshot : List α) : History α :=
  let retained := if h.capacity ≤ h.size then h.entries.tail else h.entries
  { h with entries := insertEntry key snapshot retained }

def push (h : History α) (now : Int64) (snapshot : List α) :
    Except KeyCollision OrderKey × History α :=
  match h.kind with
  | .numeric =>
    let millis := max now (satAdd h.last 1)
    let key := OrderKey.numeric millis.toInt
    (.ok key, { h with last := millis }.keep key snapshot)
  | .lexicalTimestamp =>
    let key := OrderKey.stamp (timeOfDay now.toInt)
    if key ∈ h.keys then (.error ⟨key⟩, h) else (.ok key, h.keep key snapshot)

end History
end CallMetrics
