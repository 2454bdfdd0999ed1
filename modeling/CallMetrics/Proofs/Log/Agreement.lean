import CallMetrics.Log.Redaction

/-! Values that agree but for secrets: they have the same shape and the same parts, except that what
stands under a secret name may be anything. Values that agree are redacted to the same value, and a
value agrees with what it is redacted to, so that all that has no secret name on its way is found
there unchanged; under the secret names stands the mask (`RedactedTo`). -/

namespace CallMetrics

mutual

/-- The second value is the first one, but for what stands under secret names. -/
def Value.Agrees : Value → Value → Prop
  | .list items, other => ∃ items', other = .list items' ∧ AgreeItems items items'
  | .record members, other => ∃ members', other = .record members' ∧ AgreeMembers members members'
  | .null, other => other = .null
  | .bool b, other => other = .bool b
  | .int n, other => other = .int n
  | .real digits, other => other = .real digits
  | .text s, other => other = .text s
  | .foreign, other => other = .foreign

def AgreeItems : List Value → List Value → Prop
  | [], others => others = []
  | v :: rest, others => ∃ v' rest', others = v' :: rest' ∧ v.Agrees v' ∧ AgreeItems rest rest'

def AgreeMembers : List (String × Value) → List (String × Value) → Prop
  | [], others => others = []
  | (name, v) :: rest, others => ∃ v' rest', others = (name, v') :: rest' ∧
      (isSecretKey name = true ∨ v.Agrees v') ∧ AgreeMembers rest rest'

end

mutual

/-- No name within the value is secret. -/
def Value.Plain : Value → Prop
  | .list items => PlainItems items
  | .record members => PlainMembers members
  | _ => True

def PlainItems : List Value → Prop
  | [] => True
  | v :: rest => v.Plain ∧ PlainItems rest

def PlainMembers : List (String × Value) → Prop
  | [] => True
  | (name, v) :: rest => isSecretKey name = false ∧ v.Plain ∧ PlainMembers rest

end

mutual

theorem Value.Agrees.redacted_eq : ∀ {v v' : Value}, v.Agrees v' → v.redacted = v'.redacted
  | .list _, _, h => by
    obtain ⟨items', rfl, hitems⟩ := h
    rw [Value.redacted, Value.redacted, redactItems_eq hitems]
  | .record _, _, h => by
    obtain ⟨members', rfl, hmembers⟩ := h
    rw [Value.redacted, Value.redacted, redactMembers_eq hmembers]
  | .null, _, h | .bool _, _, h | .int _, _, h | .real _, _, h | .text _, _, h | .foreign, _, h =>
    congrArg Value.redacted (Eq.symm h)

theorem redactItems_eq : ∀ {items items' : List Value}, AgreeItems items items' →
    redactItems items = redactItems items'
  | [], _, h => congrArg redactItems (Eq.symm h)
  | _ :: _, _, h => by
    obtain ⟨v', rest', rfl, hv, hrest⟩ := h
    rw [redactItems, redactItems, hv.redacted_eq, redactItems_eq hrest]

theorem redactMembers_eq : ∀ {members members' : List (String × Value)},
    AgreeMembers members members' → redactMembers members = redactMembers members'
  | [], _, h => congrArg redactMembers (Eq.symm h)
  | (name, v) :: _, _, h => by
    obtain ⟨v', rest', rfl, hv, hrest⟩ := h
    rw [redactMembers, redactMembers, redactMembers_eq hrest]
    rcases hv with hsecret | hv
    · rw [if_pos hsecret, if_pos hsecret]
    · rw [hv.redacted_eq]

end

mutual

theorem Value.agrees_redacted : ∀ v : Value, v.Agrees v.redacted
  | .list items => ⟨_, rfl, agreeItems_redactItems items⟩
  | .record members => ⟨_, rfl, agreeMembers_redactMembers members⟩
  | .null | .bool _ | .int _ | .real _ | .text _ | .foreign => rfl

theorem agreeItems_redactItems : ∀ items : List Value, AgreeItems items (redactItems items)
  | [] => rfl
  | v :: rest => ⟨_, _, rfl, v.agrees_redacted, agreeItems_redactItems rest⟩

theorem agreeMembers_redactMembers : ∀ members : List (String × Value),
    AgreeMembers members (redactMembers members)
  | [] => rfl
  | (name, v) :: rest => by
    refine ⟨_, _, rfl, ?_, agreeMembers_redactMembers rest⟩
    cases hname : isSecretKey name with
    | true => exact .inl rfl
    | false => exact .inr (by simpa using v.agrees_redacted)

end

mutual

/-- Under every secret name within the value stands the mask. -/
def Value.Masked : Value → Prop
  | .list items => MaskedItems items
  | .record members => MaskedMembers members
  | _ => True

def MaskedItems : List Value → Prop
  | [] => True
  | v :: rest => v.Masked ∧ MaskedItems rest

def MaskedMembers : List (String × Value) → Prop
  | [] => True
  | (name, v) :: rest =>
    (isSecretKey name = true → v = .text secretMask) ∧ v.Masked ∧ MaskedMembers rest

end

mutual

theorem Value.masked_redacted : ∀ v : Value, v.redacted.Masked
  | .list items => maskedItems_redactItems items
  | .record members => maskedMembers_redactMembers members
  | .null | .bool _ | .int _ | .real _ | .text _ | .foreign => trivial

theorem maskedItems_redactItems : ∀ items : List Value, MaskedItems (redactItems items)
  | [] => trivial
  | v :: rest => ⟨v.masked_redacted, maskedItems_redactItems rest⟩

theorem maskedMembers_redactMembers : ∀ members : List (String × Value),
    MaskedMembers (redactMembers members)
  | [] => trivial
  | (name, v) :: rest => by
    refine ⟨fun hname => if_pos hname, ?_, maskedMembers_redactMembers rest⟩
    split
    · exact trivial
    · exact v.masked_redacted

end

/-- The second value is the first one with the mask under all secret names. -/
def Value.RedactedTo (v v' : Value) : Prop := v.Agrees v' ∧ v'.Masked

theorem Value.redactedTo_redacted (v : Value) : v.RedactedTo v.redacted :=
  ⟨v.agrees_redacted, v.masked_redacted⟩

mutual

/-- What holds no secret name is not changed. -/
theorem Value.Agrees.eq_of_plain : ∀ {v v' : Value}, v.Agrees v' → v.Plain → v' = v
  | .list _, _, h, hplain => by
    obtain ⟨items', rfl, hitems⟩ := h
    rw [agreeItems_eq_of_plain hitems hplain]
  | .record _, _, h, hplain => by
    obtain ⟨members', rfl, hmembers⟩ := h
    rw [agreeMembers_eq_of_plain hmembers hplain]
  | .null, _, h, _ | .bool _, _, h, _ | .int _, _, h, _ | .real _, _, h, _ | .text _, _, h, _
  | .foreign, _, h, _ => h

theorem agreeItems_eq_of_plain : ∀ {items items' : List Value}, AgreeItems items items' →
    PlainItems items → items' = items
  | [], _, h, _ => h
  | _ :: _, _, h, hplain => by
    obtain ⟨v', rest', rfl, hv, hrest⟩ := h
    rw [hv.eq_of_plain hplain.1, agreeItems_eq_of_plain hrest hplain.2]

theorem agreeMembers_eq_of_plain : ∀ {members members' : List (String × Value)},
    AgreeMembers members members' → PlainMembers members → members' = members
  | [], _, h, _ => h
  | (name, v) :: _, _, h, hplain => by
    obtain ⟨v', rest', rfl, hv, hrest⟩ := h
    have hv := hv.resolve_left (by simp [hplain.1])
    rw [hv.eq_of_plain hplain.2.1, agreeMembers_eq_of_plain hrest hplain.2.2]

end

inductive ValueStep
  | member (name : String)
  | item (index : Nat)

namespace Value

def at? : Value → List ValueStep → Option Value
  | v, [] => some v
  | .record members, .member name :: rest => (Dict.find? name members).bind (at? · rest)
  | .list items, .item index :: rest => items[index]?.bind (at? · rest)
  | _, _ :: _ => none

end Value

/-- No name on the way is secret. -/
def Unsecret (path : List ValueStep) : Prop :=
  ∀ name, ValueStep.member name ∈ path → isSecretKey name = false

theorem AgreeMembers.find? {members members' : List (String × Value)}
    (h : AgreeMembers members members') {name : String} (hname : isSecretKey name = false) {v : Value}
    (hv : Dict.find? name members = some v) :
    ∃ v', Dict.find? name members' = some v' ∧ v.Agrees v' := by
  induction members generalizing members' with
  | nil => cases hv
  | cons m rest ih =>
    obtain ⟨v', rest', rfl, hfirst, hrest⟩ := h
    rw [Dict.find?] at hv ⊢
    split at hv
    · rename_i heq
      obtain rfl := Option.some.inj hv
      subst heq
      exact ⟨v', if_pos rfl, hfirst.resolve_left (by simp [hname])⟩
    · rename_i hne
      rw [if_neg hne]
      exact ih hrest hv

theorem AgreeItems.getElem? {items items' : List Value} (h : AgreeItems items items') {index : Nat}
    {v : Value} (hv : items[index]? = some v) : ∃ v', items'[index]? = some v' ∧ v.Agrees v' := by
  induction items generalizing items' index with
  | nil => simp at hv
  | cons first rest ih =>
    obtain ⟨first', rest', rfl, hfirst, hrest⟩ := h
    cases index with
    | zero =>
      obtain rfl : first = v := by simpa using hv
      exact ⟨first', rfl, hfirst⟩
    | succ index => exact ih hrest (by simpa using hv)

/-- The second value has, at the same place, all that is in the first one behind no secret name. -/
def Value.ShownIn (v v' : Value) : Prop :=
  ∀ path x, Unsecret path → v.at? path = some x →
    ∃ x', v'.at? path = some x' ∧ x.Agrees x' ∧ (x.Plain → x' = x)

theorem Value.Agrees.shownIn {v v' : Value} (h : v.Agrees v') : v.ShownIn v' := by
  intro path
  induction path generalizing v v' with
  | nil =>
    intro x _ hx
    obtain rfl : v = x := Option.some.inj hx
    exact ⟨v', rfl, h, h.eq_of_plain⟩
  | cons step rest ih =>
    intro x hpath hx
    have hrest : Unsecret rest := fun name hname => hpath name (List.mem_cons_of_mem _ hname)
    cases v with
    | record members =>
      obtain ⟨members', rfl, hmembers⟩ := h
      -- The name is not secret, so what stands under it agrees as well.
      cases step with
      | member name =>
        obtain ⟨inner, hinner, hx⟩ := Option.bind_eq_some_iff.1 hx
        obtain ⟨inner', hinner', hagrees⟩ :=
          hmembers.find? (hpath name (List.mem_cons_self ..)) hinner
        obtain ⟨x', hx', hkept⟩ := ih hagrees x hrest hx
        exact ⟨x', by rw [at?, hinner']; exact hx', hkept⟩
      | item index => cases hx
    | list items =>
      obtain ⟨items', rfl, hitems⟩ := h
      cases step with
      | member name => cases hx
      | item index =>
        obtain ⟨inner, hinner, hx⟩ := Option.bind_eq_some_iff.1 hx
        obtain ⟨inner', hinner', hagrees⟩ := hitems.getElem? hinner
        obtain ⟨x', hx', hkept⟩ := ih hagrees x hrest hx
        exact ⟨x', by rw [at?, hinner']; exact hx', hkept⟩
    | _ => cases step <;> cases hx

end CallMetrics
