import CallMetrics.Proofs.Engine.Acts
import CallMetrics.Proofs.Metric.Samples

/-! What a client tells its sink and what it keeps in its registry. The emissions of a run tell what the
registry holds: a counter is the sum of its deltas since it was last set, and an average is the one that
is fed with the times of its emissions, whether or not it has been read between them
(`sink_tells_registry`). -/

namespace CallMetrics
variable {σ : Type}

namespace Emission

/-- Whether a counter is told of it. -/
def counted (key : MetricKey) (e : Emission) : Bool :=
  e.key = key && (e.kind = .counter || e.kind = .counterDelta)

/-- What it makes of the value of a counter. -/
def applied (value : Int64) (e : Emission) : Int64 :=
  match e.kind with
  | .counter => e.values.headD 0
  | .counterDelta => value + e.values.headD 0
  | _ => value

/-- Whether an average is told of it. -/
def timed (key : MetricKey) (e : Emission) : Bool := e.key = key && e.kind = .elapsedCpu

end Emission

/-- A counter by its emissions alone: their replay from zero, and how many there are. -/
def Counter.told (key : MetricKey) (emitted : List (Int64 × Emission)) : Counter :=
  let own := (emitted.map (·.2)).filter (·.counted key)
  ⟨own.foldl Emission.applied 0, .ofNat own.length⟩

/-- A new average that is fed with the first values of its emissions, each at its time. -/
def Average.told (w : Window) (key : MetricKey) (emitted : List (Int64 × Emission)) : Average :=
  (emitted.filter (·.2.timed key)).foldl (fun a e => a.update w e.1 (e.2.values.headD 0)) .new

theorem Counter.told_concat (key : MetricKey) (emitted : List (Int64 × Emission)) (now : Int64)
    (e : Emission) : told key (emitted ++ [(now, e)]) =
      if e.counted key then
        ⟨e.applied (told key emitted).value, (told key emitted).updates + 1⟩
      else told key emitted := by
  rw [told, List.map_append, List.filter_append]
  by_cases he : e.counted key
  · simp [he, told, UInt64.ofNat_add]
  · simp [he, told]

theorem Average.told_concat (w : Window) (key : MetricKey) (emitted : List (Int64 × Emission))
    (now : Int64) (e : Emission) : told w key (emitted ++ [(now, e)]) =
      if e.timed key then (told w key emitted).update w now (e.values.headD 0)
      else told w key emitted := by
  rw [told, List.filter_append]
  by_cases he : e.timed key
  · simp [he, told]
  · simp [he, told]

namespace Recording
variable (rec : Recording) (now : Int64) (r : Registry) (key : MetricKey)

@[simp] theorem window_update : (rec.update now r).window = r.window := by
  cases rec with
  | times key millis nanos => cases nanos <;> rfl
  | count | total | gauge | sample => rfl

/-- A recording does to a counter what its emission tells. -/
theorem counterOf_update : (rec.update now r).counterOf key =
    if rec.emission.counted key then
      ⟨rec.emission.applied (r.counterOf key).value, (r.counterOf key).updates + 1⟩
    else r.counterOf key := by
  cases rec with
  | times other millis nanos =>
    have hcounted : (times other millis nanos).emission.counted key = false := by
      simp [emission, Emission.counted]
    rw [hcounted]
    cases nanos <;> rfl
  | count other delta =>
    refine (r.counterOf_onCounter key other _).trans ?_
    by_cases hkey : other = key <;>
      simp [hkey, emission, Emission.counted, Emission.applied, Counter.add]
  | total other value =>
    refine (r.counterOf_onCounter key other _).trans ?_
    by_cases hkey : other = key <;>
      simp [hkey, emission, Emission.counted, Emission.applied, Counter.assign]
  | gauge other value | sample other value =>
    simp [emission, Emission.counted]
    rfl

/-- A recording that is no sample, and whose processor time goes elsewhere, does to an average what its
emission tells. -/
theorem averageOf_update (hsample : ∀ value, rec ≠ .sample key value)
    (hcpu : rec.emission.kind = .elapsedCpu → rec.emission.key.child Reserved.cpu ≠ key) :
    (rec.update now r).averageOf key =
      if rec.emission.timed key then
        (r.averageOf key).update r.window now (rec.emission.values.headD 0)
      else r.averageOf key := by
  cases rec with
  | times other millis nanos =>
    have hupdate : (r.updateAverage other now millis).averageOf key =
        if other = key then (r.averageOf key).update r.window now millis else r.averageOf key :=
      r.averageOf_onAverage key other _
    have hchild : other.child Reserved.cpu ≠ key := hcpu rfl
    have hnanos : ((times other millis nanos).update now r).averageOf key =
        (r.updateAverage other now millis).averageOf key := by
      cases nanos with
      | none => rfl
      | some n =>
        refine (Registry.averageOf_onAverage _ key (other.child Reserved.cpu) _).trans ?_
        rw [if_neg hchild]
    rw [hnanos, hupdate]
    by_cases hkey : other = key <;> simp [hkey, emission, Emission.timed]
  | sample other value =>
    have hother : other ≠ key := fun h => hsample value (h ▸ rfl)
    refine (r.averageOf_onAverage key other _).trans ?_
    simp [hother, emission, Emission.timed]
  | count other value | total other value | gauge other value =>
    simp [emission, Emission.timed]
    rfl

end Recording

namespace Client

/-- The counters of a client are those that its emissions tell. -/
structure Agrees (c : Client (Audited σ)) (w : World (Audited σ)) : Prop where
  window : (c.registry w).window = c.window
  counters : ∀ key, (c.registry w).counterOf key = .told key w.emitted

/-- From now on, to refresh an average is to refresh the one that its emissions tell. -/
def AgreesOn (c : Client (Audited σ)) (key : MetricKey) (w : World (Audited σ)) : Prop :=
  Tells (Average.refresh c.window)
    (fun later => (Average.told c.window key w.emitted).refresh c.window later)
    w.clock.wall ((c.registry w).averageOf key)

variable {c : Client (Audited σ)} {w w' : World (Audited σ)} {rec? : Option Recording}

theorem Agrees.effect (h : c.Agrees w) (heffect : c.Effect w w' rec?) : c.Agrees w' := by
  rcases heffect with ⟨rec, hemitted, hregistry⟩ | ⟨hemitted, hread⟩
  · refine ⟨?_, fun key => ?_⟩
    · rw [hregistry, Recording.window_update, h.window]
    · rw [hregistry, Recording.counterOf_update, h.counters key, hemitted, Counter.told_concat]
  · refine ⟨hread.window.trans h.window, fun key => ?_⟩
    rw [hread.counters key, h.counters key, hemitted]

theorem AgreesOn.effect {key : MetricKey} (hwindow : 0 ≤ c.window.millis.toInt)
    (hkept : (c.registry w).window = c.window) (h : c.AgreesOn key w)
    (heffect : c.Effect w w' rec?) (hforward : w.clock.wall ≤ w'.clock.wall)
    (hsample : ∀ value, rec? ≠ some (.sample key value))
    (hcpu : ∀ e ∈ w'.emitted, e.2.kind = .elapsedCpu → e.2.key.child Reserved.cpu ≠ key) :
    c.AgreesOn key w' := by
  refine Tells.later ?_ hforward
  rcases heffect with ⟨rec, hemitted, hregistry⟩ | ⟨hemitted, hread⟩
  · have hown : ∀ value, rec ≠ .sample key value := fun value hrec => hsample value (hrec ▸ rfl)
    have helsewhere := hcpu (w.clock.wall, rec.emission) (by simp [hemitted])
    have hupdated := rec.averageOf_update w.clock.wall (c.registry w) key hown helsewhere
    rw [hregistry, hemitted, Average.told_concat, hupdated, hkept]
    by_cases htimed : rec.emission.timed key
    · -- an update begins by refreshing what there is
      rw [if_pos htimed, if_pos htimed, Average.update, Average.update, h _ (Int64.le_refl _)]
      exact fun _ _ => rfl
    · rw [if_neg htimed, if_neg htimed]
      exact h
  · rw [hemitted]
    rcases hread.averages key with hsame | hrefreshed
    · rw [hsame]
      exact h
    · rw [hrefreshed, hkept]
      exact h.refreshed fun later hlater => Average.refresh_refresh hwindow hlater _

/-- What acts leave, one after another. -/
def after (c : Client σ) (acts : List ClientAct) (w : World σ) : World σ :=
  acts.foldl (fun w act => act.run c w) w

/-- The recordings that take place, each with its time. -/
def story (c : Client σ) : List ClientAct → World σ → List (Int64 × Recording)
  | [], _ => []
  | act :: rest, w =>
    ((act.recording? c w).map (w.clock.wall, ·)).toList ++ c.story rest (act.run c w)

/-- The clock goes back in none of the acts. -/
def Forward (c : Client σ) : List ClientAct → World σ → Prop
  | [], _ => True
  | act :: rest, w => w.clock.wall ≤ (act.run c w).clock.wall ∧ c.Forward rest (act.run c w)

instance decidableForward (c : Client σ) :
    (acts : List ClientAct) → (w : World σ) → Decidable (c.Forward acts w)
  | [], _ => .isTrue trivial
  | act :: rest, w =>
    have := c.decidableForward rest (act.run c w)
    inferInstanceAs (Decidable (_ ∧ _))

theorem Effect.emitted (heffect : c.Effect w w' rec?) : w'.emitted =
    w.emitted ++ (rec?.map fun rec => (w.clock.wall, rec.emission)).toList := by
  rcases heffect with ⟨rec, hemitted, -⟩ | ⟨hemitted, -⟩
  · exact hemitted
  · rw [hemitted]
    exact (List.append_nil _).symm

section Run
variable (c : Client σ) (acts : List ClientAct) (w : World (Audited σ))

/-- There is one emission for each recording. -/
theorem emitted_after : (c.audited.after acts w).emitted =
    w.emitted ++ (c.audited.story acts w).map fun e => (e.1, e.2.emission) := by
  induction acts generalizing w with
  | nil => exact (List.append_nil _).symm
  | cons act rest ih =>
    have hact := (act.effect c w).emitted
    have hrest := ih (act.run c.audited w)
    rw [hact] at hrest
    refine hrest.trans ?_
    rw [story, List.map_append, List.append_assoc]
    cases act.recording? c.audited w <;> rfl

theorem agrees_after (h : c.audited.Agrees w) : c.audited.Agrees (c.audited.after acts w) := by
  induction acts generalizing w with
  | nil => exact h
  | cons act rest ih => exact ih _ (h.effect (act.effect c w))

/-- Samples are recorded only when asked for. -/
theorem eq_recordSample {c : Client σ} {w : World σ} {act : ClientAct} {key : MetricKey}
    {value : Int64} (h : act.recording? c w = some (.sample key value)) :
    act = .recordSample key value := by
  cases act with
  | recordSample => cases h; rfl
  | finish p other =>
    obtain ⟨reading, -, hreading⟩ := Option.map_eq_some_iff.1 h
    cases hreading
  | finishAs p other target =>
    obtain ⟨reading, -, hreading⟩ := Option.map_eq_some_iff.1 h
    cases hreading
  | _ => cases h

theorem agreesOn_after {key : MetricKey} (hwindow : 0 ≤ c.window.millis.toInt)
    (hagrees : c.audited.Agrees w) (h : c.audited.AgreesOn key w)
    (hforward : c.audited.Forward acts w) (hsample : ∀ value, .recordSample key value ∉ acts)
    (hcpu : ∀ e ∈ (c.audited.after acts w).emitted, e.2.kind = .elapsedCpu →
      e.2.key.child Reserved.cpu ≠ key) : c.audited.AgreesOn key (c.audited.after acts w) := by
  induction acts generalizing w with
  | nil => exact h
  | cons act rest ih =>
    obtain ⟨hstep, hrest⟩ := hforward
    have hact := act.effect c w
    have hone : c.audited.AgreesOn key (act.run c.audited w) := by
      refine h.effect hwindow hagrees.window hact hstep (fun value hrec => ?_) (fun e he => ?_)
      · exact hsample value (eq_recordSample hrec ▸ List.mem_cons_self)
      · apply hcpu e
        show e ∈ (c.audited.after rest (act.run c.audited w)).emitted
        rw [emitted_after]
        exact List.mem_append_left _ he
    exact ih _ (hagrees.effect hact) hone hrest
      (fun value hmem => hsample value (List.mem_cons_of_mem _ hmem)) hcpu

end Run

section New
variable (name : String) (timer : Timer) (millis : UInt64) (sink : Sink σ) (root : Logger)

/-- A client whose registry is empty and whose sink has not been called. -/
theorem agrees_new {w : World σ} (hnew : w.registries.get? name = none) :
    (new name timer (.ofMillis millis) sink root).audited.Agrees w.audited ∧
      ∀ key, (new name timer (.ofMillis millis) sink root).audited.AgreesOn key w.audited := by
  have hregistry : (new name timer (.ofMillis millis) sink root).audited.registry w.audited =
      .empty (.ofMillis millis) := by
    show (w.registries.get? name).getD _ = _
    rw [hnew]
    rfl
  refine ⟨⟨?_, fun key => ?_⟩, fun key => ?_⟩
  · rw [hregistry]
    rfl
  · rw [hregistry]
    rfl
  · intro later _
    rw [hregistry]
    rfl

end New
end Client

/-- In every run of a client, the sink is given one emission for each recording that takes place, at its
time and with as many values as its kind has. Each counter is what its emissions tell, and while the
clock does not go back, so is each average to which nothing else is added: neither samples, nor the
processor time of another metric. -/
theorem sink_tells_registry (name : String) (timer : Timer) (millis : UInt64) (sink : Sink σ)
    (root : Logger) (acts : List ClientAct) {w : World σ} (hnew : w.registries.get? name = none) :
    let c := (Client.new name timer (.ofMillis millis) sink root).audited
    let ended := c.after acts w.audited
    ended.emitted = (c.story acts w.audited).map (fun e => (e.1, e.2.emission)) ∧
      (∀ e ∈ ended.emitted, e.2.check = .ok ()) ∧
      ∀ key, ((c.registry ended).counter key).1 = .told key ended.emitted ∧
        (c.Forward acts w.audited → (∀ value, .recordSample key value ∉ acts) →
          (∀ e ∈ ended.emitted, e.2.kind = .elapsedCpu → e.2.key.child Reserved.cpu ≠ key) →
          ((c.registry ended).average key ended.clock.wall).1 =
            (Average.told (.ofMillis millis) key ended.emitted).refresh (.ofMillis millis)
              ended.clock.wall) := by
  intro c ended
  obtain ⟨hagrees, haverages⟩ := Client.agrees_new name timer millis sink root hnew
  have hemitted : ended.emitted = (c.story acts w.audited).map fun e => (e.1, e.2.emission) :=
    Client.emitted_after (.new name timer (.ofMillis millis) sink root) acts w.audited
  have hended : c.Agrees ended := Client.agrees_after _ acts w.audited hagrees
  refine ⟨hemitted, fun e he => ?_, fun key => ⟨?_, fun hforward hsample hcpu => ?_⟩⟩
  · rw [hemitted] at he
    obtain ⟨told, -, rfl⟩ := List.mem_map.1 he
    exact told.2.check_emission
  · rw [Registry.counter_fst]
    exact hended.counters key
  · have hkey : c.AgreesOn key ended := Client.agreesOn_after _ acts w.audited
      (Window.ofMillis_nonneg millis) hagrees (haverages key) hforward hsample hcpu
    rw [Registry.average_fst, hended.window]
    exact hkey _ (Int64.le_refl _)

/-- Two times that are further apart than the window, with a read between them, and a counter that is
set and then grows. -/
def ClientAct.expiring : List ClientAct :=
  [.recordTimes ⟨"a"⟩ 5 none, .setCount ⟨"a"⟩ 7, .move (·.advance 15000), .readings,
    .recordTimes ⟨"a"⟩ 9 (some 2), .recordCount ⟨"a"⟩ 3]

theorem sink_tells_registry_expiring :
    let failing : Sink Unit := .failing
    let c := (Client.new "default" ⟨0⟩ (.ofMillis 15000) failing ⟨.silent, ∅⟩).audited
    let begun : World Unit := .started .default ⟨.started 0 0, ()⟩
    let ended := c.after ClientAct.expiring begun.audited
    begun.registries.get? "default" = none ∧ c.Forward ClientAct.expiring begun.audited ∧
      (∀ value, .recordSample ⟨"a"⟩ value ∉ ClientAct.expiring) ∧
      (∀ e ∈ ended.emitted, e.2.kind = .elapsedCpu → e.2.key.child Reserved.cpu ≠ ⟨"a"⟩) ∧
      ((c.registry ended).counter ⟨"a"⟩).1 = ⟨10, 2⟩ ∧
      ((c.registry ended).average ⟨"a"⟩ ended.clock.wall).1 = ⟨1, 9, 9, 9, 15000⟩ := by
  intro failing c begun ended
  have hnew : begun.registries.get? "default" = none := rfl
  obtain ⟨-, -, htold⟩ := sink_tells_registry "default" ⟨0⟩ 15000 failing ⟨.silent, ∅⟩
    ClientAct.expiring hnew
  obtain ⟨hcounter, haverage⟩ := htold ⟨"a"⟩
  have hforward : c.Forward ClientAct.expiring begun.audited := by decide +kernel
  have hsample : ∀ value, .recordSample ⟨"a"⟩ value ∉ ClientAct.expiring := by
    simp [ClientAct.expiring]
  have hcpu : ∀ e ∈ ended.emitted, e.2.kind = .elapsedCpu →
      e.2.key.child Reserved.cpu ≠ ⟨"a"⟩ := by decide +kernel
  refine ⟨hnew, hforward, hsample, hcpu, hcounter.trans ?_, ?_⟩
  · decide +kernel
  · exact (haverage hforward hsample hcpu).trans (by decide +kernel)

end CallMetrics
