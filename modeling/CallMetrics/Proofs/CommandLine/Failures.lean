import CallMetrics.CommandLine.Output
import CallMetrics.Proofs.Json.Reading

/-! Failures as a command writes them. What stands under secret keys makes no difference to the output
in any form, and all other metadata is in it as it is (`failure_output_hides_secrets`). -/

namespace CallMetrics

section Redaction
variable {keys keys' : List String} {metadata : Dict String}

theorem redactKeys_congr (h : ∀ k, k ∈ keys ↔ k ∈ keys') :
    redactKeys keys metadata = redactKeys keys' metadata :=
  Dict.ext_get? fun k => by simp only [get?_redactKeys, h]

theorem redactKeys_redactKeys : redactKeys keys (redactKeys keys metadata) = redactKeys keys metadata := by
  refine Dict.ext_get? fun k => ?_
  simp only [get?_redactKeys, Option.map_map]
  congr 1
  funext v
  by_cases hk : k ∈ keys <;> simp [hk]

end Redaction

namespace Value

/-- A record is arranged by arranging its members and putting their names in order. -/
theorem arranged_record {members es : List (String × Value)}
    (hnames : (es.map (·.1)).Pairwise (· < ·)) (hmembers : (arrangeMembers members).Perm es) :
    (record members).arranged = record es := by
  have hentries : (arrangeMembers members).Perm (Dict.mk es (List.pairwise_map.1 hnames)).entries :=
    hmembers
  rw [arranged, Dict.ofList_eq_of_perm hentries]

theorem arranged_ofTexts (texts : Dict String) : (ofTexts texts).arranged = ofTexts texts := by
  have hmembers (es : List (String × String)) :
      arrangeMembers (es.map fun e => (e.1, text e.2)) = es.map fun e => (e.1, text e.2) := by
    induction es with
    | nil => rfl
    | cons e rest ih => simp only [List.map_cons, arrangeMembers, arranged, ih]
  refine arranged_record ?_ (.of_eq (hmembers texts.entries))
  rw [List.map_map]
  exact texts.pairwise_keys

end Value

namespace Failure

/-- Failures that are equal but for what stands under secret keys. -/
structure Agrees (f f' : Failure) : Prop where
  kind : f'.kind = f.kind
  code : f'.code = f.code
  message : f'.message = f.message
  metadata : ∀ k, Option.Rel (fun v v' => isSecretKey k = true ∨ v' = v) (f.metadata.get? k)
    (f'.metadata.get? k)

/-- The metadata as it is shown: all keys, and all values but those under secret keys. -/
theorem metadata_withoutSecrets (f : Failure) : f.withoutSecrets.metadata =
    f.metadata.map fun k v => if isSecretKey k then redactedValue else v := by
  refine Dict.ext_get? fun k => ?_
  rw [withoutSecrets, redact, get?_redactKeys, Dict.get?_map]
  cases hk : f.metadata.get? k with
  | none => rfl
  | some v =>
    have hmem : k ∈ f.metadata.keys := Dict.mem_keys_iff.2 ⟨v, hk⟩
    simp [hmem]

theorem Agrees.withoutSecrets_eq {f f' : Failure} (h : f.Agrees f') :
    f'.withoutSecrets = f.withoutSecrets := by
  have hmetadata : f'.withoutSecrets.metadata = f.withoutSecrets.metadata := by
    refine Dict.ext_get? fun k => ?_
    rw [metadata_withoutSecrets, metadata_withoutSecrets, Dict.get?_map, Dict.get?_map]
    have hk := h.metadata k
    generalize f.metadata.get? k = o, f'.metadata.get? k = o' at hk ⊢
    cases hk with
    | none => rfl
    | some hvalue =>
      rcases hvalue with hsecret | rfl
      · simp [hsecret]
      · rfl
  have hparts (g : Failure) :
      g.withoutSecrets = ⟨g.kind, g.code, g.message, g.withoutSecrets.metadata⟩ := rfl
  rw [hparts f', hparts f, hmetadata, h.kind, h.code, h.message]

theorem Agrees.output_eq {f f' : Failure} (h : f.Agrees f') (m : OutputMode) :
    f'.output m = f.output m := by
  rw [output, output, h.withoutSecrets_eq, h.kind]

/-- The lines of a report that tell what it is about. -/
def heading (f : Failure) : String :=
  "status: error\ncode: " ++ f.code.joined ++ "\nmessage: " ++ f.message ++ "\nkind: " ++
    f.kind.label ++ "\n"

/-- The lines of a report that tell its metadata, under a line of their own if there are any. -/
def metadataLines (texts : Dict String) : String :=
  if texts.isEmpty then "" else "meta:\n" ++ String.join (texts.entries.map fun e =>
    "  " ++ e.1 ++ ": " ++ e.2 ++ "\n")

/-- The output is the report of the failure with these texts as its metadata: one line for each, or
as members of the error of a document. -/
def Shows (f : Failure) (form : OutputForm) (out : String) (texts : Dict String) : Prop :=
  match form with
  | .text => out = f.heading ++ metadataLines texts
  | .json | .ndjson => Json.read out = some (.record [
      ("error", .record [("code", .text f.code.joined), ("kind", .text f.kind.label),
        ("message", .text f.message), ("meta", .ofTexts texts)]),
      ("status", .text "error")])

theorem lines_eq (f : Failure) : f.lines = f.heading ++ metadataLines f.metadata := rfl

theorem arranged_summary (f : Failure) : f.summary.arranged = .record [
    ("error", .record [("code", .text f.code.joined), ("kind", .text f.kind.label),
      ("message", .text f.message), ("meta", .ofTexts f.metadata)]),
    ("status", .text "error")] := by
  have herror : (Value.record [("code", .text f.code.joined), ("kind", .text f.kind.label),
      ("message", .text f.message), ("meta", .ofTexts f.metadata)]).arranged =
      .record [("code", .text f.code.joined), ("kind", .text f.kind.label),
        ("message", .text f.message), ("meta", .ofTexts f.metadata)] := by
    refine Value.arranged_record
      (show ["code", "kind", "message", "meta"].Pairwise (· < ·) by decide +kernel) (.of_eq ?_)
    simp only [Value.arrangeMembers, Value.arranged, Value.arranged_ofTexts]
  refine Value.arranged_record (show ["error", "status"].Pairwise (· < ·) by decide +kernel) ?_
  simp only [Value.arrangeMembers, herror]
  exact .swap ..

theorem expressible_summary (f : Failure) : f.summary.arranged.Expressible := by
  rw [arranged_summary]
  simp [Value.Expressible.ofTexts]

theorem shows_render (f : Failure) (form : OutputForm) :
    f.Shows form (form.render f.lines f.summary) f.metadata := by
  cases form with
  | text => exact f.lines_eq
  | json => rw [Shows, OutputForm.render, Json.read_prettyLines f.expressible_summary, arranged_summary]
  | ndjson =>
    rw [Shows, OutputForm.render, Json.read_compactLine f.expressible_summary, arranged_summary]

/-- What stands under a secret key may be anything. -/
theorem Agrees.note {f f' : Failure} (h : f.Agrees f') {key v v' : String}
    (hv : isSecretKey key = true ∨ v' = v) : (f.note key v).Agrees (f'.note key v') where
  kind := h.kind
  code := h.code
  message := h.message
  metadata k := by
    rw [Failure.note, Failure.note, Dict.get?_insert, Dict.get?_insert]
    split
    next hk => exact .some (hk ▸ hv)
    next => exact h.metadata k

theorem Agrees.refl (f : Failure) : f.Agrees f where
  kind := rfl
  code := rfl
  message := rfl
  metadata k := by
    cases f.metadata.get? k with
    | none => exact .none
    | some v => exact .some (.inr rfl)

end Failure

/-- The output of a failure is the same whatever stands under its secret keys; all its keys are in it,
and all values but those. Which keys to redact counts, not how often or in what order. -/
theorem failure_output_hides_secrets (m : OutputMode) (f : Failure) :
    (∀ f', f.Agrees f' → f'.output m = f.output m) ∧
      (∃ texts : Dict String, texts.keys = f.metadata.keys ∧
        (∀ k v, f.metadata.get? k = some v →
          texts.get? k = some (if isSecretKey k then redactedValue else v)) ∧
        f.Shows m.form (f.output m).stdout texts) ∧
      (∀ keys metadata, redactKeys keys (redactKeys keys metadata) = redactKeys keys metadata) ∧
      ∀ keys keys' metadata, (∀ k, k ∈ keys ↔ k ∈ keys') →
        redactKeys keys metadata = redactKeys keys' metadata := by
  refine ⟨fun f' h => h.output_eq m, ⟨f.withoutSecrets.metadata, ?_, fun k v hk => ?_, ?_⟩,
    fun keys metadata => redactKeys_redactKeys, fun keys keys' metadata h => redactKeys_congr h⟩
  · rw [f.metadata_withoutSecrets, Dict.keys_map]
  · rw [f.metadata_withoutSecrets, Dict.get?_map, hk, Option.map_some]
  · exact f.withoutSecrets.shows_render m.form

/-- A failure to reach a sink, with the token that was tried. -/
def unreachable (token : String) : Failure :=
  ((Failure.unexpected .inputOutput "no answer").note "apiToken" token).note "sink" "audit"

theorem failure_output_hides_secrets_token :
    (unreachable "hunter2").output ⟨.json, true⟩ = (unreachable "swordfish").output ⟨.json, true⟩ ∧
      (∃ texts : Dict String, texts.get? "apiToken" = some redactedValue ∧
        texts.get? "sink" = some "audit" ∧
        (unreachable "hunter2").Shows .json ((unreachable "hunter2").output ⟨.json, true⟩).stdout
          texts) ∧
      redactKeys ["sink", "host", "sink"] (unreachable "hunter2").metadata =
        redactKeys ["host", "sink"] (unreachable "hunter2").metadata := by
  have hsecret : isSecretKey "apiToken" = true := by decide +kernel
  have hopen : isSecretKey "sink" = false := by decide +kernel
  have hagrees : (unreachable "swordfish").Agrees (unreachable "hunter2") :=
    ((Failure.Agrees.refl _).note (.inl hsecret)).note (.inr rfl)
  obtain ⟨hsame, -, -, -⟩ := failure_output_hides_secrets ⟨.json, true⟩ (unreachable "swordfish")
  obtain ⟨-, ⟨texts, -, hvalues, hshows⟩, -, hkeys⟩ :=
    failure_output_hides_secrets ⟨.json, true⟩ (unreachable "hunter2")
  refine ⟨hsame _ hagrees, ⟨texts, ?_, ?_, hshows⟩, hkeys _ _ _ (by simp)⟩
  · rw [hvalues "apiToken" "hunter2" rfl, hsecret, if_pos rfl]
  · rw [hvalues "sink" "audit" rfl, hopen, if_neg Bool.false_ne_true]

end CallMetrics
