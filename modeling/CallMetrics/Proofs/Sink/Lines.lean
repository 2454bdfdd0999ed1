import Mathlib.Data.List.Basic
import CallMetrics.Proofs.Json.Lines
import CallMetrics.Proofs.Json.Wire
import CallMetrics.Sink.Calls
import CallMetrics.Sink.Journal

/-! A writer of metric lines beside a sink that records. Both take the well-formed emissions and refuse
the others alike (`answerAll_lines`, `answerAll_recording`), and the lines that are written say, one after
the other, the emissions that are recorded (`map_read?_metricValues`). -/

namespace CallMetrics
open Decode

namespace SinkCall

/-- The answer of a sink that takes every well-formed emission. -/
def verdict : SinkCall → Except SinkError Unit
  | emit e => e.check
  | flush _ => .ok ()

/-- The emission that such a sink takes. -/
def accepted? : SinkCall → Option Emission
  | emit e => match e.check with
    | .ok () => some e
    | .error _ => none
  | flush _ => none

end SinkCall

namespace Journal

/-- The texts that have been written under a label. -/
def texts (j : Journal) (label : String) : List String :=
  j.entries.toList.filterMap fun
    | (author, .line text) => if author = label then some text else none
    | _ => none

/-- All that has been written under a label. -/
def text (j : Journal) (label : String) : String := String.join (j.texts label)

/-- The emissions that have been recorded under a label. -/
def emissions (j : Journal) (label : String) : List Emission :=
  j.entries.toList.filterMap fun
    | (author, .emission e) => if author = label then some e else none
    | _ => none

variable (j : Journal) (label : String)

theorem texts_push_line (line : String) :
    (j.push label (.line line)).texts label = j.texts label ++ [line] := by
  simp [texts, push]

theorem emissions_push_emission (e : Emission) :
    (j.push label (.emission e)).emissions label = j.emissions label ++ [e] := by
  simp [emissions, push]

theorem emissions_push_flush (key : MetricKey) :
    (j.push label (.flush key)).emissions label = j.emissions label := by
  simp [emissions, push]

end Journal

/-- What a metric line says. -/
structure MetricLine where
  emission : Emission
  tags : Dict String

namespace MetricLine

def words : Value → Option (List Int64)
  | .list items => items.mapM int64
  | _ => none

/-- A record of the type `metric`; without tags if it has none. -/
def ofValue? (v : Value) : Option MetricLine :=
  match fields json false ["type", "kind", "name", "values", "tags"] v with
  | some [some (.text "metric"), kind, name, values, tags] => do
    return ⟨⟨⟨← required text name⟩, ← required MetricKind.ofValue? kind, ← required words values⟩,
      (← optional json textDict tags).getD ∅⟩
  | _ => none

def read? (line : String) : Option MetricLine := (Json.read line).bind ofValue?

theorem words_map (values : List Int64) :
    words (.list (values.map fun v => .int v.toInt)) = some values := by
  rw [words]
  induction values with
  | nil => rfl
  | cons v values ih => simp [ih, int64_toInt]

theorem kind_ofValue?_name (kind : MetricKind) : MetricKind.ofValue? (.text kind.name) = some kind := by
  cases kind <;> rfl

/-- Tags that are left out are read as none. -/
theorem ofValue?_toValue (tags : Dict String) (now : Int64) (e : Emission) :
    ofValue? (e.toValue tags now) = some ⟨e, tags.map maskIfSecret⟩ := by
  have hvalues := words_map e.values
  have hkind := kind_ofValue?_name e.kind
  cases hempty : tags.isEmpty with
  | true =>
    obtain rfl : tags = ∅ := Dict.ext_entries (List.isEmpty_iff.1 hempty)
    have hfields : fields json false ["type", "kind", "name", "values", "tags"] (e.toValue ∅ now) =
        some [some (.text "metric"), some (.text e.kind.name), some (.text e.key.text),
          some (.list (e.values.map fun v => .int v.toInt)), none] := by
      simp [fields, distinct, Emission.toValue, hempty, Dict.find?]
    simp only [ofValue?, hfields, required_some, hkind, hvalues]
    rfl
  | false =>
    have hfields : fields json false ["type", "kind", "name", "values", "tags"]
        (e.toValue tags now) =
        some [some (.text "metric"), some (.text e.kind.name), some (.text e.key.text),
          some (.list (e.values.map fun v => .int v.toInt)),
          some (.ofTexts (tags.map maskIfSecret))] := by
      simp [fields, distinct, Emission.toValue, hempty, Dict.find?]
    have htags : optional json textDict (some (.ofTexts (tags.map maskIfSecret))) =
        some (some (tags.map maskIfSecret)) := congrArg (Option.map some) (textDict_ofTexts _)
    simp only [ofValue?, hfields, required_some, hkind, hvalues, htags]
    rfl

theorem expressible_toValue (tags : Dict String) (now : Int64) (e : Emission) :
    (e.toValue tags now).Expressible := by
  have hstamp := Value.Expressible.ofInt64 now
  have hvalues : (Value.list (e.values.map fun v => .int v.toInt)).Expressible :=
    .list (List.forall_mem_map.2 fun v _ => .ofInt64 v)
  have htags := Value.Expressible.ofTexts (tags.map maskIfSecret)
  rw [Emission.toValue]
  generalize Value.list _ = values at *
  generalize Value.ofTexts _ = written at *
  generalize Value.int now.toInt = stamp at *
  cases tags.isEmpty <;> simp [hstamp, hvalues, htags]

end MetricLine

namespace Sink
variable (label : String) (tags : Dict String)

/-- What is written for a call, if it is an emission that is taken, with the time of the call. -/
def metricValue? (clock : Clock) (call : SinkCall) : Option Value :=
  call.accepted?.map (·.toValue tags clock.stamp)

def metricValues (calls : List (Clock × SinkCall)) : List Value :=
  calls.filterMap fun step => metricValue? tags step.1 step.2

/-- If each call is answered in a known way and adds to what is seen of the state, so do all of them. -/
theorem answerAll_append {σ α : Type} {s : Sink σ} {verdict : SinkCall → Except SinkError Unit}
    (seen : σ → List α) (added : Clock → SinkCall → List α)
    (h : ∀ stage call, (s.answer stage call).1 = verdict call ∧
      seen (s.answer stage call).2.store = seen stage.store ++ added stage.clock call)
    (calls : List (Clock × SinkCall)) (store : σ) :
    (s.answerAll calls store).1 = calls.map (fun step => verdict step.2) ∧
      seen (s.answerAll calls store).2 =
        seen store ++ calls.flatMap fun step => added step.1 step.2 := by
  induction calls generalizing store with
  | nil => exact ⟨rfl, (List.append_nil _).symm⟩
  | cons step rest ih =>
    obtain ⟨hanswer, hseen⟩ := h ⟨step.1, store⟩ step.2
    obtain ⟨hanswers, hall⟩ := ih (s.answer ⟨step.1, store⟩ step.2).2.store
    refine ⟨?_, ?_⟩
    · rw [answerAll, List.map_cons, ← hanswer, ← hanswers]
    · rw [List.flatMap_cons, ← List.append_assoc]
      exact hall.trans (congrArg (· ++ _) hseen)

theorem answer_lines (stage : Stage Journal) (call : SinkCall) :
    ((lines label tags).answer stage call).1 = call.verdict ∧
      ((lines label tags).answer stage call).2.store.texts label = stage.store.texts label ++
        (metricValue? tags stage.clock call).toList.map Json.compactLine := by
  cases call with
  | emit e =>
    cases hcheck : e.check with
    | ok _ =>
      simp only [answer, lines, SinkCall.verdict, metricValue?, SinkCall.accepted?, hcheck, true_and]
      exact Journal.texts_push_line ..
    | error err => simp [answer, lines, SinkCall.verdict, metricValue?, SinkCall.accepted?, hcheck]
  | flush key => simp [answer, lines, SinkCall.verdict, metricValue?, SinkCall.accepted?]

theorem answerAll_lines (calls : List (Clock × SinkCall)) (j : Journal) :
    ((lines label tags).answerAll calls j).1 = calls.map (·.2.verdict) ∧
      ((lines label tags).answerAll calls j).2.texts label =
        j.texts label ++ (metricValues tags calls).map Json.compactLine := by
  rw [metricValues, List.filterMap_eq_flatMap_toList, List.map_flatMap]
  exact answerAll_append (·.texts label)
    (fun clock call => (metricValue? tags clock call).toList.map Json.compactLine)
    (answer_lines label tags) calls j

theorem answer_recording (stage : Stage Journal) (call : SinkCall) :
    ((recording label).answer stage call).1 = call.verdict ∧
      ((recording label).answer stage call).2.store.emissions label =
        stage.store.emissions label ++ call.accepted?.toList := by
  cases call with
  | emit e =>
    simp only [answer, recording, SinkCall.verdict, SinkCall.accepted?]
    cases e.check with
    | ok _ => exact ⟨rfl, Journal.emissions_push_emission ..⟩
    | error err => exact ⟨rfl, (List.append_nil _).symm⟩
  | flush key =>
    exact ⟨rfl, (Journal.emissions_push_flush ..).trans (List.append_nil _).symm⟩

theorem answerAll_recording (calls : List (Clock × SinkCall)) (j : Journal) :
    ((recording label).answerAll calls j).1 = calls.map (·.2.verdict) ∧
      ((recording label).answerAll calls j).2.emissions label =
        j.emissions label ++ calls.filterMap (·.2.accepted?) := by
  rw [List.filterMap_eq_flatMap_toList]
  exact answerAll_append (·.emissions label) (fun _ call => call.accepted?.toList)
    (answer_recording label) calls j

end Sink

namespace MetricLine

/-- Each line says the emission that it was written for, and the tags of its writer. -/
theorem map_read?_metricValues (tags : Dict String) (calls : List (Clock × SinkCall)) :
    (Sink.metricValues tags calls).map (fun v => read? (Json.compact v)) =
      (calls.filterMap (·.2.accepted?)).map fun e => some ⟨e, tags.map maskIfSecret⟩ := by
  rw [Sink.metricValues, List.map_filterMap, List.map_filterMap]
  congr 1
  funext step
  rw [Sink.metricValue?, Option.map_map]
  refine Option.map_congr fun e _ => ?_
  rw [Function.comp_apply, read?, Json.read_compact (expressible_toValue tags _ e)]
  exact ofValue?_toValue tags _ e

theorem expressible_metricValues (tags : Dict String) (calls : List (Clock × SinkCall)) :
    ∀ v ∈ Sink.metricValues tags calls, v.Expressible := by
  intro v hv
  obtain ⟨step, -, hv⟩ := List.mem_filterMap.1 hv
  obtain ⟨e, -, rfl⟩ := Option.map_eq_some_iff.1 hv
  exact expressible_toValue tags _ e

end MetricLine
end CallMetrics
