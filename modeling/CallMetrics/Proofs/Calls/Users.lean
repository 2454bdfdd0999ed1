import CallMetrics.Proofs.Calls.Storage

/-! The metrics of users. A call is also recorded under a key that puts its user before its
operation key. Ids of users and names of operations may hold slashes, so a longer id can take in the
beginning of an operation key; but for that, calls with the same user key are calls of one user,
type and operation (`userKey_shared_iff`). -/

namespace CallMetrics
variable {σ : Type}

/-- Texts that go on after a slash are equal if they break there into equal parts, or if one breaks
at a later slash than the other. -/
theorem append_slash_eq_iff {a b rest rest' : List Char} :
    a ++ '/' :: rest = b ++ '/' :: rest' ↔ (a = b ∧ rest = rest') ∨
      (∃ middle, b = a ++ '/' :: middle ∧ rest = middle ++ '/' :: rest') ∨
      ∃ middle, a = b ++ '/' :: middle ∧ rest' = middle ++ '/' :: rest := by
  constructor
  · intro h
    rcases List.append_eq_append_iff.1 h with ⟨more, hb, hrest⟩ | ⟨more, ha, hrest⟩
    · cases more with
      | nil => exact .inl ⟨by simpa using hb.symm, (List.cons.inj hrest).2⟩
      | cons c middle =>
        obtain ⟨rfl, hmiddle⟩ := List.cons.inj hrest
        exact .inr (.inl ⟨middle, hb, hmiddle⟩)
    · cases more with
      | nil => exact .inl ⟨by simpa using ha, (List.cons.inj hrest).2.symm⟩
      | cons c middle =>
        obtain ⟨rfl, hmiddle⟩ := List.cons.inj hrest
        exact .inr (.inr ⟨middle, ha, hmiddle⟩)
  · rintro (⟨rfl, rfl⟩ | ⟨middle, rfl, rfl⟩ | ⟨middle, rfl, rfl⟩)
    · rfl
    · simp
    · simp

/-- A part without a slash ends at the first one. -/
theorem append_slash_eq_iff_of_noSlash {a b rest rest' : List Char} (ha : '/' ∉ a) :
    a ++ '/' :: rest = b ++ '/' :: rest' ↔ (a = b ∧ rest = rest') ∨
      ∃ middle, b = a ++ '/' :: middle ∧ rest = middle ++ '/' :: rest' := by
  have hnot : ¬∃ middle, a = b ++ '/' :: middle ∧ rest' = middle ++ '/' :: rest := by
    rintro ⟨middle, rfl, -⟩
    simp at ha
  rw [append_slash_eq_iff, or_iff_left hnot]

theorem UserId.text_inj {a b : UserId} : a.text = b.text ↔ a = b := by
  cases a
  cases b
  simp

theorem MetricKey.text_inj {a b : MetricKey} : a.text = b.text ↔ a = b :=
  ⟨eq_of_text, congrArg text⟩

/-- A call that is recorded for its user. -/
@[ext] structure UserCall where
  user : UserId
  type : CallType
  operation : OperationName

namespace UserCall

def key (userPrefix : String) (component : ComponentKey) (c : UserCall) : MetricKey :=
  userKey userPrefix c.user (operationKey component c.type c.operation)

/-- The id of the second user is that of the first one with the beginning of the first operation
key, and the end of that key is the second operation key. -/
def Absorbs (component : ComponentKey) (c c' : UserCall) : Prop :=
  (c'.user.text = c.user.text ++ "/" ++ component.text ∧ c.type.text = component.text ∧
    c.operation.text = c'.type.text ++ "/" ++ c'.operation.text) ∨
  (c'.user.text = c.user.text ++ "/" ++ component.text ++ "/" ++ c.type.text ∧
    c.operation.text = (operationKey component c'.type c'.operation).text) ∨
  ∃ middle, c'.user.text =
      c.user.text ++ "/" ++ component.text ++ "/" ++ c.type.text ++ "/" ++ middle ∧
    c.operation.text = middle ++ "/" ++ (operationKey component c'.type c'.operation).text

theorem absorbs_iff (component : ComponentKey) (c c' : UserCall) :
    c.Absorbs component c' ↔ ∃ middle, c'.user.text.toList = c.user.text.toList ++ '/' :: middle ∧
      (operationKey component c.type c.operation).text.toList =
        middle ++ '/' :: (operationKey component c'.type c'.operation).text.toList := by
  -- The second id ends within the first key: right after the component, right after the type, or
  -- within the name of the operation.
  simp only [Absorbs, ← String.toList_inj, String.toList_append, toList_operationKey,
    append_slash_eq_iff_of_noSlash component.noSlash]
  have hslash : "/".toList = ['/'] := rfl
  simp only [hslash, List.append_assoc, List.cons_append, List.nil_append]
  constructor
  · rintro (⟨huser, htype, hoperation⟩ | ⟨huser, hoperation⟩ | ⟨middle, huser, hoperation⟩)
    · exact ⟨_, huser, .inl ⟨rfl, by rw [htype, hoperation]⟩⟩
    · exact ⟨_, huser, .inr ⟨_, rfl, by rw [hoperation]⟩⟩
    · exact ⟨_, huser, .inr ⟨c.type.text.toList ++ '/' :: middle.toList, rfl, by simp [hoperation]⟩⟩
  · rintro ⟨middle, huser, ⟨rfl, hrest⟩ | ⟨after, rfl, hrest⟩⟩
    · obtain ⟨htype, hoperation⟩ := eq_of_append_slash c.type.noSlash component.noSlash hrest
      exact .inl ⟨huser, htype, hoperation⟩
    · rcases (append_slash_eq_iff_of_noSlash c.type.noSlash).1 hrest with
        ⟨rfl, hoperation⟩ | ⟨more, rfl, hoperation⟩
      · exact .inr (.inl ⟨huser, hoperation⟩)
      · exact .inr (.inr ⟨String.ofList more, by simp [huser], by simp [hoperation]⟩)

theorem key_eq_iff (userPrefix : String) (component : ComponentKey) (c c' : UserCall) :
    c.key userPrefix component = c'.key userPrefix component ↔
      c = c' ∨ c.Absorbs component c' ∨ c'.Absorbs component c := by
  have hkey : c.key userPrefix component = c'.key userPrefix component ↔
      c.user.text.toList ++ '/' :: (operationKey component c.type c.operation).text.toList =
        c'.user.text.toList ++
          '/' :: (operationKey component c'.type c'.operation).text.toList := by
    rw [key, key, userKey, userKey, MetricKey.mk.injEq, ← String.toList_inj]
    simp [userSegment]
  have hsame : c.user.text.toList = c'.user.text.toList ∧
      (operationKey component c.type c.operation).text.toList =
        (operationKey component c'.type c'.operation).text.toList ↔ c = c' := by
    rw [String.toList_inj, String.toList_inj, UserId.text_inj, MetricKey.text_inj, operationKey_inj]
    exact UserCall.ext_iff.symm
  rw [hkey, append_slash_eq_iff, absorbs_iff, absorbs_iff, hsame]

/-- Calls of users whose ids hold no slash are kept apart. -/
theorem key_inj_of_noSlash {userPrefix : String} {component : ComponentKey} {c c' : UserCall}
    (hc : '/' ∉ c.user.text.toList) (hc' : '/' ∉ c'.user.text.toList) :
    c.key userPrefix component = c'.key userPrefix component ↔ c = c' := by
  have hnot {a b : UserCall} (hb : '/' ∉ b.user.text.toList) : ¬a.Absorbs component b := by
    intro h
    obtain ⟨middle, hid, -⟩ := (absorbs_iff component a b).1 h
    simp [hid] at hb
  rw [key_eq_iff, or_iff_left (not_or.2 ⟨hnot hc', hnot hc⟩)]

end UserCall

/-- Two calls are recorded for their users under one key just if they are of one user, type and
operation, or if the id of one user takes in the beginning of the other call's operation key. The
metrics of a call's user are those under this key. -/
theorem userKey_shared_iff (userPrefix : String) (component : ComponentKey) (c c' : UserCall) :
    (c.key userPrefix component = c'.key userPrefix component ↔
      c = c' ∨ c.Absorbs component c' ∨ c'.Absorbs component c) ∧
    ∀ (d : Dispatcher σ) (p : Place) (type : CallType) (operation : OperationName) (w : World σ),
      let key := UserCall.key d.userPrefix w.dispatch.component ⟨d.caller p w, type, operation⟩
      (d.begin p type operation w).1.userSlots =
        [⟨.average, key⟩, ⟨.average, key.child Reserved.cpu⟩] := by
  refine ⟨UserCall.key_eq_iff userPrefix component c c', fun d p type operation w => ?_⟩
  rw [d.begin_fst]
  rfl

/-- A call of a user, and one whose user and operation split its key at another slash. -/
def UserCall.nested : UserCall where
  user := ⟨"a", by decide +kernel⟩
  type := .rpc
  operation := ⟨"x/server/rpc/y", by decide +kernel⟩

def UserCall.absorbing : UserCall where
  user := ⟨"a/server/rpc/x", by decide +kernel⟩
  type := .rpc
  operation := ⟨"y", by decide +kernel⟩

theorem users_share_metric :
    UserCall.nested.key ValidConfig.default.config.userPrefix ValidConfig.default.component =
        UserCall.absorbing.key ValidConfig.default.config.userPrefix ValidConfig.default.component ∧
      UserCall.nested.user ≠ UserCall.absorbing.user ∧
      UserCall.nested.operation ≠ UserCall.absorbing.operation := by
  refine ⟨(UserCall.key_eq_iff _ _ _ _).2 (.inr (.inl (.inr (.inr ⟨"x", ?_, ?_⟩)))), ?_, ?_⟩
  all_goals decide +kernel

end CallMetrics
