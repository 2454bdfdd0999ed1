import Mathlib.Data.List.Basic
import CallMetrics.Proofs.Engine.Keys

/-! Reading keys. Components and types hold no slash and names have no blanks at their ends, so an
operation key is cut into its parts at its first two slashes, and every key that a call writes under
is read as itself. Main statement: `operation_key_readable`. -/

namespace CallMetrics
open Text

/-- The parts of a text that is cut at its first slashes, at most so many of them. -/
def cutSlashes : Nat → List Char → List (List Char)
  | 0, cs => [cs]
  | cuts + 1, cs =>
    match cs.dropWhile (· ≠ '/') with
    | [] => [cs]
    | _ :: rest => cs.takeWhile (· ≠ '/') :: cutSlashes cuts rest

/-- What a key is made of, when it is cut at its first two slashes. -/
def MetricKey.parts (key : MetricKey) : List String :=
  (cutSlashes 2 key.text.toList).map String.ofList

/-- A part without a slash ends at the first one. -/
theorem cutSlashes_append {part : List Char} (h : '/' ∉ part) (cuts : Nat) (rest : List Char) :
    cutSlashes (cuts + 1) (part ++ '/' :: rest) = part :: cutSlashes cuts rest := by
  have hpart : ∀ c ∈ part, decide (c ≠ '/') = true := fun c hc =>
    decide_eq_true fun hslash => h (hslash ▸ hc)
  have hrest : ∀ c ∈ ('/' :: rest).head?, decide (c ≠ '/') = false := by simp
  rw [cutSlashes, dropWhile_run hpart hrest, takeWhile_run hpart hrest]

namespace Text
variable {a b : String}

theorem Trimmed.trimBlanks_toList (h : Trimmed a) : trimBlanks a.toList = a.toList :=
  trim_eq_self_iff.1 h.2

theorem Trimmed.toList_ne_nil (h : Trimmed a) : a.toList ≠ [] := by
  simpa using h.1

theorem Trimmed.head?_append (h : Trimmed a) (rest : List Char) :
    ∀ c ∈ (a.toList ++ rest).head?, isBlank c = false := by
  rw [List.head?_append_of_ne_nil _ h.toList_ne_nil, ← h.trimBlanks_toList]
  exact head?_trimBlanks a.toList

theorem Trimmed.getLast?_append (h : Trimmed b) (before : List Char) :
    ∀ c ∈ (before ++ b.toList).getLast?, isBlank c = false := by
  rw [List.getLast?_append_of_ne_nil _ h.toList_ne_nil, ← h.trimBlanks_toList]
  exact getLast?_trimBlanks b.toList

/-- Whatever stands between two trimmed texts, all of it is trimmed. -/
theorem Trimmed.append (ha : Trimmed a) (hb : Trimmed b) (middle : String) :
    Trimmed (a ++ middle ++ b) := by
  have htext : (a ++ middle ++ b).toList = a.toList ++ (middle.toList ++ b.toList) := by simp
  refine ⟨fun hempty => ha.toList_ne_nil ?_, trim_eq_self_iff.2 (trimBlanks_eq_self ?_ ?_)⟩
  · rw [hempty] at htext
    exact (List.append_eq_nil_iff.1 htext.symm).1
  · rw [htext]
    exact ha.head?_append _
  · rw [htext, ← List.append_assoc]
    exact hb.getLast?_append _

end Text

section Reading
variable {s : String}

theorem readTrimmed_of_trimmed {part : KeyPart} (h : Trimmed s) : readTrimmed part s = .ok ⟨s, h⟩ := by
  have hblank : trim s ≠ "" := h.2.symm ▸ h.1
  rw [readTrimmed, dif_neg hblank]
  exact congrArg Except.ok (Subtype.ext h.2)

theorem readSegment_of_trimmed {part : KeyPart} (h : Trimmed s) (hslash : '/' ∉ s.toList) :
    readSegment part s = .ok ⟨s, h, hslash⟩ := by
  rw [readSegment, readTrimmed_of_trimmed h]
  exact dif_neg hslash

theorem ComponentKey.read_text (component : ComponentKey) : read component.text = .ok component := by
  rw [read, readSegment_of_trimmed component.trimmed component.noSlash]
  rfl

theorem CallType.read_text (type : CallType) : read type.text = .ok type := by
  rw [read, readSegment_of_trimmed type.trimmed type.noSlash]
  rfl

theorem OperationName.read_text (operation : OperationName) :
    read operation.text = .ok operation := by
  rw [read, readTrimmed_of_trimmed operation.trimmed]
  rfl

theorem MetricKey.read_text {key : MetricKey} (h : Trimmed key.text) : read key.text = .ok key := by
  rw [read, readTrimmed_of_trimmed h]
  rfl

end Reading

/-- The names that stand in keys in place of operations, or behind them. -/
def Reserved.names : List String :=
  [concurrency, total, overhead, errors, OperationName.unresolved.text, cpu]

theorem Reserved.trimmed : ∀ name ∈ names, Trimmed name := by decide +kernel

section Site
variable (component : ComponentKey) (type : CallType) {s : String}

theorem trimmed_sitePrefix_append (h : Trimmed s) : Trimmed (sitePrefix component type ++ s) := by
  have htext : sitePrefix component type ++ s =
      component.text ++ ("/" ++ type.text ++ "/") ++ s := by
    simp only [sitePrefix, String.append_assoc]
  rw [htext]
  exact component.trimmed.append h _

theorem trimmed_child {key : MetricKey} (hkey : Trimmed key.text) (h : Trimmed s) :
    Trimmed (key.child s).text := hkey.append h "/"

theorem parts_operationKey (operation : OperationName) :
    (operationKey component type operation).parts =
      [component.text, type.text, operation.text] := by
  rw [MetricKey.parts, toList_operationKey, cutSlashes_append component.noSlash,
    cutSlashes_append type.noSlash, cutSlashes]
  simp

theorem sitePrefix_prefix_iff {component' : ComponentKey} {type' : CallType} :
    (sitePrefix component type).toList <+: (sitePrefix component' type').toList ↔
      component = component' ∧ type = type' := by
  constructor
  · rintro ⟨rest, hrest⟩
    have htext : sitePrefix component type ++ String.ofList rest =
        sitePrefix component' type' ++ "" := by
      rw [← String.toList_inj]
      simpa using hrest
    obtain ⟨hcomponent, htype, -⟩ := sitePrefix_append_eq_iff.1 htext
    exact ⟨hcomponent, htype⟩
  · rintro ⟨rfl, rfl⟩
    exact List.prefix_refl _

end Site

/-- An operation key is cut at its first two slashes into its component, its type and the whole name of
its operation, each of which is read as what it is the text of; so keys of different operations
differ, and no site's keys begin as those of another. The key, its children and the keys of its site
under reserved names are all read as themselves. -/
theorem operation_key_readable (component : ComponentKey) (type : CallType)
    (operation : OperationName) :
    let key := operationKey component type operation
    key.parts = [component.text, type.text, operation.text] ∧
      (ComponentKey.read component.text = .ok component ∧ CallType.read type.text = .ok type ∧
        OperationName.read operation.text = .ok operation) ∧
      (∀ component' type' operation', key = operationKey component' type' operation' ↔
        component = component' ∧ type = type' ∧ operation = operation') ∧
      (∀ component' type',
        (sitePrefix component type).toList <+: (sitePrefix component' type').toList ↔
          component = component' ∧ type = type') ∧
      MetricKey.read key.text = .ok key ∧
      ∀ name ∈ Reserved.names, MetricKey.read (key.child name).text = .ok (key.child name) ∧
        MetricKey.read (siteKey component type name).text = .ok (siteKey component type name) := by
  intro key
  have hkey : Trimmed key.text := trimmed_sitePrefix_append component type operation.trimmed
  refine ⟨parts_operationKey component type operation,
    ⟨component.read_text, type.read_text, operation.read_text⟩, fun _ _ _ => ?_,
    fun _ _ => sitePrefix_prefix_iff component type, MetricKey.read_text hkey, fun name hname => ?_⟩
  · show operationKey component type operation = _ ↔ _
    rw [operationKey, operationKey, MetricKey.mk.injEq, sitePrefix_append_eq_iff,
      OperationName.text_inj]
  · have htrimmed := Reserved.trimmed name hname
    exact ⟨MetricKey.read_text (trimmed_child hkey htrimmed),
      MetricKey.read_text (trimmed_sitePrefix_append component type htrimmed)⟩

/-- A component with a blank in it, a method in lower case, and a path of which nearly all is slashes. -/
def webComponent : ComponentKey := ⟨"web shop", by decide +kernel, by decide +kernel⟩

def patchType : CallType := CallType.upper ⟨"patch", by decide +kernel, by decide +kernel⟩

def slashedPath : OperationName := ⟨"//a/_errors/", by decide +kernel⟩

theorem operation_key_readable_slashed :
    CallType.ofMethod "\tpatch " = .ok patchType ∧
      (operationKey webComponent patchType slashedPath).parts =
        ["web shop", "PATCH", "//a/_errors/"] ∧
      Reserved.cpu ∈ Reserved.names ∧
      MetricKey.read ((operationKey webComponent patchType slashedPath).child Reserved.cpu).text =
        .ok ⟨"web shop/PATCH///a/_errors//_cpu"⟩ := by
  have hcpu : Reserved.cpu ∈ Reserved.names := by decide
  obtain ⟨hparts, -, -, -, -, hreserved⟩ :=
    operation_key_readable webComponent patchType slashedPath
  exact ⟨by decide +kernel, hparts, hcpu, (hreserved _ hcpu).1⟩

end CallMetrics
