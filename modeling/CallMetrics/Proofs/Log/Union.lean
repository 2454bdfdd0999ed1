import Mathlib.Data.List.Induction
import CallMetrics.Log.Logger

/-! Fields from several places together. Of the maps that have a name the last one says what stands
under it (`Dict.IsUnion`). A chain of child fields leads to a logger that has their union
(`base_reached`), and an event is handed on with these fields and its own (`merged_reached`). -/

namespace CallMetrics
namespace Dict
variable {α : Type}

/-- The map has the names of all the others, and under each what the last that has it says. -/
def IsUnion (d : Dict α) (maps : List (Dict α)) : Prop :=
  ∀ k, d.get? k = maps.reverse.findSome? (·.get? k)

/-- The union of maps; of several values under one key the last one counts. -/
def union (maps : List (Dict α)) : Dict α := maps.foldl merge ∅

theorem empty_merge (d : Dict α) : merge ∅ d = d :=
  ext_get? fun k => by rw [get?_merge, get?_empty, Option.or_none]

theorem union_cons (d : Dict α) (maps : List (Dict α)) : union (d :: maps) = maps.foldl merge d := by
  rw [union, List.foldl_cons, empty_merge]

theorem union_append (first second : List (Dict α)) :
    union (first ++ second) = second.foldl merge (union first) := List.foldl_append

theorem isUnion_union (maps : List (Dict α)) : (union maps).IsUnion maps := by
  induction maps using List.reverseRecOn with
  | nil => exact fun _ => rfl
  | append_singleton maps d ih =>
    intro k
    have hlast : union (maps ++ [d]) = (union maps).merge d := union_append maps [d]
    rw [hlast, get?_merge, ih k, List.reverse_append, List.reverse_singleton, List.singleton_append,
      List.findSome?_cons]
    cases d.get? k <;> rfl

end Dict

namespace Logger
variable (backend : LogBackend)

/-- The logger that a chain of child fields leads to. -/
def reached (backend : LogBackend) (chain : List Fields) : Logger :=
  chain.foldl child ⟨backend, ∅⟩

theorem reached_append (chain : List Fields) (fields : Fields) :
    reached backend (chain ++ [fields]) = (reached backend chain).child fields := List.foldl_append

theorem backend_reached (chain : List Fields) : (reached backend chain).backend = backend := by
  induction chain using List.reverseRecOn with
  | nil => rfl
  | append_singleton chain fields ih =>
    rw [reached_append]
    exact ih

theorem base_reached (chain : List Fields) : (reached backend chain).base = Dict.union chain := by
  induction chain using List.reverseRecOn with
  | nil => rfl
  | append_singleton chain fields ih =>
    rw [reached_append, child, ih, Dict.union_append]
    rfl

/-- An event without fields adds none. -/
theorem merged_eq_foldl (l : Logger) (e : LogEvent) :
    l.merged e = e.fields.toList.foldl Dict.merge l.base := by
  rw [merged]
  cases e.fields <;> rfl

theorem isUnion_merged (l : Logger) (e : LogEvent) :
    (l.merged e).IsUnion (l.base :: e.fields.toList) := by
  rw [merged_eq_foldl, ← Dict.union_cons]
  exact Dict.isUnion_union _

theorem merged_reached (chain : List Fields) (e : LogEvent) :
    (reached backend chain).merged e = Dict.union (chain ++ e.fields.toList) := by
  rw [merged_eq_foldl, base_reached, Dict.union_append]

end Logger
end CallMetrics
