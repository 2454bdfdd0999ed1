import CallMetrics.Value

/-! Typed reading of a value. A record is given by name, each known name at most once, or as a list
of its members in their order; a choice is given by its name, or as the only name of a record with
an empty payload. -/

namespace CallMetrics.Decode

structure Dialect where
  /-- A member that is null counts as absent. -/
  nullIsAbsent : Bool
  /-- A list may go on after the last member. -/
  surplusItems : Bool
  isUnit : Value → Bool

def json : Dialect := ⟨false, false, fun v => match v with | .null => true | _ => false⟩

/-- JSON in which a null leaves a setting as it is. -/
def jsonPatch : Dialect := { json with nullIsAbsent := true }

def toml : Dialect :=
  ⟨false, true, fun v => match v with | .list [] => true | .record [] => true | _ => false⟩

def distinct (names : List String) (members : List (String × Value)) : Bool :=
  names.all fun name => (members.filter (·.1 == name)).length ≤ 1

/-- The members with the given names, in that order. A strict record has no other names. -/
def fields (d : Dialect) (strict : Bool) (names : List String) : Value → Option (List (Option Value))
  | .record members =>
    if distinct names members && (!strict || members.all (names.contains ·.1)) then
      some (names.map (Dict.find? · members))
    else none
  | .list items =>
    if items.length ≤ names.length || d.surplusItems then
      some ((items.map some ++ List.replicate names.length none).take names.length)
    else none
  | _ => none

/-- The members of a record that may be absent as a whole. -/
def optionalFields (d : Dialect) (names : List String) :
    Option Value → Option (List (Option Value))
  | none => some (names.map fun _ => none)
  | some v => fields d true names v

def optional {α : Type} (d : Dialect) (read : Value → Option α) : Option Value → Option (Option α)
  | none => some none
  | some .null => if d.nullIsAbsent then some none else (read .null).map some
  | some v => (read v).map some

def required {α : Type} (read : Value → Option α) (v : Option Value) : Option α := v.bind read

def text : Value → Option String
  | .text s => some s
  | _ => none

def bool : Value → Option Bool
  | .bool b => some b
  | _ => none

def natBelow (bound : Nat) : Value → Option Nat
  | .int n => if 0 ≤ n ∧ n < bound then some n.toNat else none
  | _ => none

def uint32 (v : Value) : Option UInt32 := (natBelow UInt32.size v).map UInt32.ofNat

def uint64 (v : Value) : Option UInt64 := (natBelow UInt64.size v).map UInt64.ofNat

def int64 : Value → Option Int64
  | .int n => if Int64.minValue.toInt ≤ n ∧ n ≤ Int64.maxValue.toInt then some (Int64.ofInt n) else none
  | _ => none

def texts : Value → Option (List String)
  | .list items => items.mapM text
  | _ => none

/-- A map from names to texts; of several members with one name the last one counts. -/
def textDict : Value → Option (Dict String)
  | .record members => (members.mapM fun e => (text e.2).map (e.1, ·)).map Dict.ofList
  | _ => none

def choice {α : Type} (d : Dialect) (find : String → Option α) : Value → Option α
  | .text name => find name
  | .record [(name, payload)] => if d.isUnit payload then find name else none
  | _ => none

theorem natBelow_ofNat {bound n : Nat} (h : n < bound) : natBelow bound (.ofNat n) = some n := by
  have hrange : (0 : Int) ≤ n ∧ (n : Int) < bound := by omega
  simp [natBelow, Value.ofNat, hrange]

theorem uint32_ofNat (n : UInt32) : uint32 (.ofNat n.toNat) = some n := by
  rw [uint32, natBelow_ofNat n.toNat_lt, Option.map_some, UInt32.ofNat_toNat]

theorem uint64_ofNat (n : UInt64) : uint64 (.ofNat n.toNat) = some n := by
  rw [uint64, natBelow_ofNat n.toNat_lt, Option.map_some, UInt64.ofNat_toNat]

theorem int64_toInt (n : Int64) : int64 (.int n.toInt) = some n := by
  have hrange : Int64.minValue.toInt ≤ n.toInt ∧ n.toInt ≤ Int64.maxValue.toInt :=
    ⟨n.minValue_le_toInt, n.toInt_le⟩
  rw [int64, if_pos hrange, Int64.ofInt_toInt]

theorem texts_map (items : List String) : texts (.list (items.map .text)) = some items := by
  rw [texts]
  induction items with
  | nil => rfl
  | cons s items ih => simp [ih, text]

theorem textDict_ofTexts (d : Dict String) : textDict (.ofTexts d) = some d := by
  have hmembers (es : List (String × String)) :
      (es.map fun e => (e.1, Value.text e.2)).mapM (fun e => (text e.2).map (e.1, ·)) = some es := by
    induction es with
    | nil => rfl
    | cons e es ih =>
      rw [List.map_cons, List.mapM_cons, ih]
      rfl
  rw [Value.ofTexts, textDict, hmembers, Option.map_some, Dict.ofList_entries]

end CallMetrics.Decode
