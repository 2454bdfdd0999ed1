import CallMetrics.Proofs.Log.Agreement
import CallMetrics.Proofs.Log.Union
import CallMetrics.Sink.Journal

/-! Secrets in what is written. Main statement: what stands under secret names, anywhere in the fields
of a logger and of those it comes from, in an event or in the tags of a line writer, makes no difference
to what is written, and all else is written as it is. -/

namespace CallMetrics

/-- Fields with the same names and, but for secrets, the same values. -/
def FieldsAgree (fields fields' : Fields) : Prop :=
  (Value.ofDict fields).Agrees (Value.ofDict fields')

theorem redactMembers_eq_map (members : List (String × Value)) :
    redactMembers members = members.map fun m =>
      (m.1, if isSecretKey m.1 then .text secretMask else m.2.redacted) := by
  induction members with
  | nil => rfl
  | cons m rest ih => rw [redactMembers, ih, List.map_cons]

theorem entries_redactFields (fields : Fields) :
    (redactFields fields).entries = redactMembers fields.entries :=
  (redactMembers_eq_map fields.entries).symm

theorem ofDict_redactFields (fields : Fields) :
    Value.ofDict (redactFields fields) = (Value.ofDict fields).redacted := by
  rw [Value.ofDict, entries_redactFields]
  rfl

theorem FieldsAgree.redactFields_eq {fields fields' : Fields} (h : FieldsAgree fields fields') :
    redactFields fields = redactFields fields' := by
  obtain ⟨members', heq, hmembers⟩ := h
  obtain rfl : fields'.entries = members' := by simpa [Value.ofDict] using heq
  refine Dict.ext_entries ?_
  rw [entries_redactFields, entries_redactFields, redactMembers_eq hmembers]

theorem redactedTo_redactFields (fields : Fields) :
    (Value.ofDict fields).RedactedTo (.ofDict (redactFields fields)) := by
  rw [ofDict_redactFields]
  exact Value.redactedTo_redacted _

theorem redactFields_merge (first second : Fields) :
    redactFields (first.merge second) = (redactFields first).merge (redactFields second) := by
  refine Dict.ext_get? fun k => ?_
  simp only [redactFields, Dict.get?_map, Dict.get?_merge]
  cases second.get? k <;> rfl

namespace LogEvent

/-- Events that are equal but for secrets. -/
structure Agrees (e e' : LogEvent) : Prop where
  level : e'.level = e.level
  event : e'.event = e.event
  message : e'.message = e.message
  fields : Option.Rel FieldsAgree e.fields e'.fields
  error : Option.Rel Value.Agrees e.error e'.error

theorem Agrees.redactFields_eq {e e' : LogEvent} (h : e.Agrees e') :
    redactFields (e.fields.getD ∅) = redactFields (e'.fields.getD ∅) := by
  have hfields := h.fields
  generalize e.fields = fields, e'.fields = fields' at hfields
  cases hfields with
  | some h => exact h.redactFields_eq
  | none => rfl

theorem Agrees.error_redacted {e e' : LogEvent} (h : e.Agrees e') :
    e.error.map Value.redacted = e'.error.map Value.redacted :=
  Dict.eq_of_optionRel (Dict.optionRel_map h.error fun _ _ => Value.Agrees.redacted_eq)

end LogEvent

/-- The backend writes events out for others to read. -/
def LogBackend.writes : LogBackend → Bool
  | json _ | tracing => true
  | capture | silent => false

namespace Logger

theorem redactFields_foldl_child {links : List (Fields × Fields)}
    (h : ∀ link ∈ links, FieldsAgree link.1 link.2) {l l' : Logger}
    (hbase : redactFields l.base = redactFields l'.base) :
    redactFields ((links.map Prod.fst).foldl child l).base =
      redactFields ((links.map Prod.snd).foldl child l').base := by
  induction links generalizing l l' with
  | nil => exact hbase
  | cons link rest ih =>
    -- What a child merges is redacted the same in both, whichever side a field is won by.
    refine ih (fun x hx => h x (List.mem_cons_of_mem _ hx)) ?_
    rw [child, child, redactFields_merge, redactFields_merge, hbase,
      (h link (List.mem_cons_self ..)).redactFields_eq]

section Congr
variable {l l' : Logger} {e e' : LogEvent} (hbackend : l'.backend = l.backend)
  (hbase : redactFields l.base = redactFields l'.base) (h : e.Agrees e')
include hbase h

theorem redactFields_merged : redactFields (l.merged e) = redactFields (l'.merged e') := by
  rw [merged, merged, redactFields_merge, redactFields_merge, hbase, h.redactFields_eq]

theorem payload_congr (now : Int64) : l.payload now e = l'.payload now e' := by
  have herror := h.error
  rw [payload, payload, redactFields_merged hbase h, h.level, h.event, h.message]
  generalize e.error = error, e'.error = error' at herror ⊢
  cases herror with
  | some herror => simp only [herror.redacted_eq]
  | none => rfl

theorem traceEvent_congr : l.traceEvent e = l'.traceEvent e' := by
  have hshown (error : Option Value) : (error.map fun v => Json.compact v.redacted) =
      (error.map Value.redacted).map Json.compact := by
    rw [Option.map_map]
    rfl
  rw [traceEvent, traceEvent, redactFields_merged hbase h, h.level, h.event, h.message, hshown,
    hshown, h.error_redacted]

include hbackend in
theorem record_congr (hwrites : l.backend.writes = true) (now : Int64) :
    l.record now e = l'.record now e' := by
  rw [record, record, hbackend]
  cases hcase : l.backend with
  | json least => rw [payload_congr hbase h, h.level]
  | tracing => rw [traceEvent_congr hbase h]
  | capture | silent => simp [hcase, LogBackend.writes] at hwrites

end Congr

/-- An event is written, if it is of a level that is, with these fields and this error: as members of a
line, where no fields are left out, or as texts of a trace event. -/
def Writes (l : Logger) (now : Int64) (e : LogEvent) (fields : Value) (error : Option Value) :
    Prop :=
  match l.backend with
  | .json least => least ≤ e.level → ∃ payload,
      l.record now e = some (.line (Json.compactLine payload)) ∧
        (payload.member? "fields").getD (.record []) = fields ∧ payload.member? "error" = error
  | .tracing => ∃ t, l.record now e = some (.trace t) ∧
      t.fields = Json.compact fields ∧ t.error = (error.map Json.compact).getD ""
  | .capture | .silent => False

theorem payload_fields (l : Logger) (now : Int64) (e : LogEvent) :
    ((l.payload now e).member? "fields").getD (.record []) =
      .ofDict (redactFields (l.merged e)) := by
  rw [payload]
  -- Where there are no fields, the line has no such member, and none are shown.
  cases hempty : (redactFields (l.merged e)).isEmpty with
  | true =>
    have hentries : (redactFields (l.merged e)).entries = [] := List.isEmpty_iff.1 hempty
    cases e.error <;> simp [Value.member?, Dict.find?, Value.ofDict, hentries]
  | false => cases e.error <;> simp [Value.member?, Dict.find?]

theorem payload_error (l : Logger) (now : Int64) (e : LogEvent) :
    (l.payload now e).member? "error" = e.error.map Value.redacted := by
  rw [payload]
  cases e.error with
  | some error => simp [Value.member?, Dict.find?]
  | none =>
    cases (redactFields (l.merged e)).isEmpty <;> simp [Value.member?, Dict.find?]

theorem writes_redacted {l : Logger} (hwrites : l.backend.writes = true) (now : Int64)
    (e : LogEvent) :
    l.Writes now e (.ofDict (redactFields (l.merged e))) (e.error.map Value.redacted) := by
  rw [Writes, record]
  cases hcase : l.backend with
  | json least =>
    intro hlevel
    exact ⟨l.payload now e, if_pos hlevel, l.payload_fields now e, l.payload_error now e⟩
  | tracing =>
    refine ⟨l.traceEvent e, rfl, rfl, ?_⟩
    rw [traceEvent, Option.map_map]
    rfl
  | capture | silent => simp [hcase, LogBackend.writes] at hwrites

end Logger

/-- Tags with the same names and, but for secrets, the same texts. -/
def TagsAgree (tags tags' : Dict String) : Prop := (Value.ofTexts tags).Agrees (Value.ofTexts tags')

theorem ofTexts_mask (tags : Dict String) :
    Value.ofTexts (tags.map maskIfSecret) = (Value.ofTexts tags).redacted := by
  rw [Value.ofTexts, Value.ofTexts, Value.redacted, redactMembers_eq_map, Dict.map, List.map_map,
    List.map_map]
  congr 1
  refine List.map_congr_left fun e _ => ?_
  cases hname : isSecretKey e.1 <;> simp [maskIfSecret, Value.redacted, hname]

theorem isEmpty_eq_of_ofTexts {tags tags' : Dict String}
    (h : Value.ofTexts (tags.map maskIfSecret) = Value.ofTexts (tags'.map maskIfSecret)) :
    tags.isEmpty = tags'.isEmpty := by
  have hlength := congrArg List.length (Value.record.inj h)
  simp only [Dict.map, List.length_map] at hlength
  rw [Dict.isEmpty, Dict.isEmpty]
  generalize tags.entries = es, tags'.entries = es' at hlength ⊢
  cases es <;> cases es' <;> simp_all

/-- Secret tags make no difference to an emission that is written. -/
theorem TagsAgree.toValue_eq {tags tags' : Dict String} (h : TagsAgree tags tags') (now : Int64)
    (e : Emission) : e.toValue tags now = e.toValue tags' now := by
  have htexts : Value.ofTexts (tags.map maskIfSecret) = Value.ofTexts (tags'.map maskIfSecret) := by
    rw [ofTexts_mask, ofTexts_mask, h.redacted_eq]
  rw [Emission.toValue, Emission.toValue, htexts, isEmpty_eq_of_ofTexts htexts]

theorem toValue_tags (tags : Dict String) (now : Int64) (e : Emission) :
    ((e.toValue tags now).member? "tags").getD (.record []) = (Value.ofTexts tags).redacted := by
  rw [Emission.toValue, ofTexts_mask]
  cases hempty : tags.isEmpty with
  | true =>
    have hentries : tags.entries = [] := List.isEmpty_iff.1 hempty
    simp [Value.member?, Dict.find?, Value.ofTexts, hentries, Value.redacted, redactMembers]
  | false => simp [Value.member?, Dict.find?]

theorem TagsAgree.lines_eq {tags tags' : Dict String} (h : TagsAgree tags tags') (label : String)
    (faults : Sink.LineFaults) : Sink.lines label tags faults = Sink.lines label tags' faults := by
  have hvalue (now : Int64) (e : Emission) := h.toValue_eq now e
  simp only [Sink.lines, hvalue]

/-- A logger that any chain of child fields leads to writes the same, at any time, whatever stands under
secret names in those fields and in the event; and it writes the union of those fields and of the event's
own, and the error, all as they are but for that. So does a writer of metric lines with its tags. -/
theorem secrets_hidden_rest_written (backend : LogBackend) (hwrites : backend.writes = true)
    {links : List (Fields × Fields)} (hlinks : ∀ link ∈ links, FieldsAgree link.1 link.2)
    {e e' : LogEvent} (he : e.Agrees e') {tags tags' : Dict String} (htags : TagsAgree tags tags') :
    let l := Logger.reached backend (links.map Prod.fst)
    let l' := Logger.reached backend (links.map Prod.snd)
    (∀ now, l.record now e = l'.record now e') ∧
      (∃ merged : Fields, merged.IsUnion (links.map Prod.fst ++ e.fields.toList) ∧
        ∀ now, ∃ fields error, l.Writes now e fields error ∧
          (Value.record merged.entries).ShownIn fields ∧ Option.Rel Value.ShownIn e.error error) ∧
      (∀ label faults, Sink.lines label tags faults = Sink.lines label tags' faults) ∧
      ∀ label (m : Emission) s, m.check = .ok () → ∃ line,
        (Sink.lines label tags).emit m s =
            (.ok (), s.journal label (.line (Json.compactLine line))) ∧
          (Value.record (tags.entries.map fun e => (e.1, .text e.2))).ShownIn
            ((line.member? "tags").getD (.record [])) := by
  intro l l'
  have hbackend : l.backend = backend := Logger.backend_reached backend _
  have hbackend' : l'.backend = backend := Logger.backend_reached backend _
  have hmerged : (l.merged e).IsUnion (links.map Prod.fst ++ e.fields.toList) := by
    rw [Logger.merged_reached]
    exact Dict.isUnion_union _
  have hbase : redactFields l.base = redactFields l'.base :=
    Logger.redactFields_foldl_child hlinks rfl
  rw [← hbackend] at hwrites
  refine ⟨fun now => ?_, ⟨l.merged e, hmerged, fun now =>
    ⟨_, _, Logger.writes_redacted hwrites now e, ?_, ?_⟩⟩, htags.lines_eq,
    fun label m s hcheck => ⟨m.toValue tags s.clock.stamp, ?_, ?_⟩⟩
  · exact Logger.record_congr (hbackend'.trans hbackend.symm) hbase he hwrites now
  · exact (redactedTo_redactFields (l.merged e)).1.shownIn
  · cases e.error with
    | some error => exact .some error.agrees_redacted.shownIn
    | none => exact .none
  · simp only [Sink.lines, hcheck]
  · rw [toValue_tags]
    exact (Value.agrees_redacted _).shownIn

/-- A session's token, and a login with a password in a list within its fields. -/
def Logger.session (token : String) : Fields := Dict.empty.insert "sessionToken" (.text token)

def LogEvent.login (password : String) : LogEvent where
  level := .warn
  event := "login"
  message := "refused"
  fields := some (Dict.empty.insert "tries"
    (.list [.int 1, .record [("user", .text "ann"), ("Password", .text password)]]))
  error := some (.record [("auth", .text password), ("code", .int 7)])

theorem LogEvent.agrees_login (password password' : String) :
    (login password).Agrees (login password') := by
  have hpassword : isSecretKey "Password" = true := by decide
  have hauth : isSecretKey "auth" = true := by decide
  refine ⟨rfl, rfl, rfl, .some ?_, .some ?_⟩
  · exact ⟨_, rfl, _, _, rfl, .inr ⟨_, rfl, _, _, rfl, rfl, _, _, rfl,
      ⟨_, rfl, _, _, rfl, .inr rfl, _, _, rfl, .inl hpassword, rfl⟩, rfl⟩, rfl⟩
  · exact ⟨_, rfl, _, _, rfl, .inl hauth, _, _, rfl, .inr rfl, rfl⟩

theorem fieldsAgree_session (token token' : String) :
    FieldsAgree (Logger.session token) (Logger.session token') := by
  have hname : isSecretKey "sessionToken" = true := by decide
  exact ⟨_, rfl, _, _, rfl, .inl hname, rfl⟩

theorem tagsAgree_cookie (cookie cookie' : String) :
    TagsAgree (Dict.empty.insert "Cookie" cookie) (Dict.empty.insert "Cookie" cookie') := by
  have hname : isSecretKey "Cookie" = true := by decide
  exact ⟨_, rfl, _, _, rfl, .inl hname, rfl⟩

theorem secrets_hidden_rest_written_login :
    (LogBackend.json .info).writes = true ∧
      (∀ link ∈ [(Logger.session "a", Logger.session "b")], FieldsAgree link.1 link.2) ∧
      (LogEvent.login "x").Agrees (.login "y") ∧
      TagsAgree (Dict.empty.insert "Cookie" "c") (Dict.empty.insert "Cookie" "d") ∧
      ∀ now, (Logger.reached (.json .info) [Logger.session "a"]).record now (.login "x") =
        (Logger.reached (.json .info) [Logger.session "b"]).record now (.login "y") := by
  have hlinks : ∀ link ∈ [(Logger.session "a", Logger.session "b")],
      FieldsAgree link.1 link.2 := by
    intro link hlink
    obtain rfl := List.mem_singleton.1 hlink
    exact fieldsAgree_session "a" "b"
  exact ⟨rfl, hlinks, LogEvent.agrees_login "x" "y", tagsAgree_cookie "c" "d",
    (secrets_hidden_rest_written (.json .info) rfl hlinks
      (LogEvent.agrees_login "x" "y") (tagsAgree_cookie "c" "d")).1⟩

end CallMetrics
