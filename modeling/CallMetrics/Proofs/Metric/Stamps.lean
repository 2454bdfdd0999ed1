import Mathlib.Data.Int.ModEq
import CallMetrics.History
import CallMetrics.Text.Numeral

/-! The texts of time stamps. A stamp tells the second of the day and nothing else
(`timeOfDay_eq_iff`): the two parts behind the hour have two digits each, so the text is read from
its end, and the hour follows from its number on the face of the clock and the half of the day.
Stamps are plain letters, so their order as texts is the order of their bytes
(`textBytes_lt`). -/

namespace CallMetrics

/-- Both moments fall on the same second of the day, be it the same day or not. -/
def SameSecond (a b : Int64) : Prop := a.toInt.fdiv 1000 ≡ b.toInt.fdiv 1000 [ZMOD 86400]

theorem digitChar_inj : ∀ a < 10, ∀ b < 10, Nat.digitChar a = Nat.digitChar b → a = b := by decide

theorem toList_twoDigits {n : Nat} (h : n < 100) :
    (twoDigits n).toList = [Nat.digitChar (n / 10), Nat.digitChar (n % 10)] := by
  rw [twoDigits, String.toList_append]
  show _ ++ (Nat.repr n).toList = _
  rw [Nat.repr, String.toList_ofList]
  split
  · rename_i hsmall
    rw [Nat.toDigits_of_lt_base hsmall, Nat.div_eq_of_lt hsmall, Nat.mod_eq_of_lt hsmall]
    rfl
  · have htens : n / 10 < 10 := by omega
    rw [Nat.toDigits_of_base_le (by decide) (by omega), Nat.toDigits_of_lt_base htens]
    rfl

theorem twoDigits_inj {a b : Nat} (ha : a < 100) (hb : b < 100)
    (h : (twoDigits a).toList = (twoDigits b).toList) : a = b := by
  rw [toList_twoDigits ha, toList_twoDigits hb] at h
  obtain ⟨htens, hrest⟩ := List.cons.inj h
  have hones := digitChar_inj _ (Nat.mod_lt a (by decide)) _ (Nat.mod_lt b (by decide))
    (List.head_eq_of_cons_eq hrest)
  have hdigits := digitChar_inj _ (by omega) _ (by omega) htens
  omega

/-- The number of an hour on the face of a clock. -/
def faceHour (hour : Nat) : Nat := if hour % 12 = 0 then 12 else hour % 12

theorem faceHour_inj {a b : Nat} (ha : a < 24) (hb : b < 24) (hhalf : a < 12 ↔ b < 12)
    (h : faceHour a = faceHour b) : a = b := by
  unfold faceHour at h
  split at h <;> split at h <;> omega

/-- What a stamp shows behind the hour. -/
def clockTail (second : Nat) : List Char :=
  ':' :: ((twoDigits (second % 3600 / 60)).toList ++ ':' :: ((twoDigits (second % 60)).toList ++
    [' ', if second / 3600 < 12 then 'A' else 'P', 'M']))

/-- The second of the day on which a moment falls. -/
def daySecond (millis : Int) : Nat := (millis.fdiv 1000 % 86400).toNat

theorem toList_timeOfDay {millis : Int} {second : Nat} (h : daySecond millis = second) :
    (timeOfDay millis).toList = Text.natChars (faceHour (second / 3600)) ++ clockTail second := by
  have hnumber (n : Nat) : (toString n).toList = Text.natChars n := String.toList_ofList
  have hcolon : ":".toList = [':'] := rfl
  have hhalf : (if second / 3600 < 12 then " AM" else " PM").toList =
      [' ', if second / 3600 < 12 then 'A' else 'P', 'M'] := by
    split <;> rfl
  rw [daySecond] at h
  simp only [timeOfDay, h, String.toList_append, hnumber, hcolon, hhalf, List.append_assoc]
  rfl

theorem length_twoDigits {n : Nat} (h : n < 100) : (twoDigits n).toList.length = 2 := by
  rw [toList_twoDigits h]
  rfl

theorem minute_lt (second : Nat) : second % 3600 / 60 < 100 := by omega

theorem second_lt (second : Nat) : second % 60 < 100 := by omega

theorem length_clockTail (second : Nat) : (clockTail second).length = 9 := by
  rw [clockTail, toList_twoDigits (minute_lt second), toList_twoDigits (second_lt second)]
  rfl

theorem clockTail_inj {a b : Nat} (h : clockTail a = clockTail b) :
    a % 3600 / 60 = b % 3600 / 60 ∧ a % 60 = b % 60 ∧ (a / 3600 < 12 ↔ b / 3600 < 12) := by
  obtain ⟨-, htail⟩ := List.cons.inj h
  obtain ⟨hminute, hrest⟩ := List.append_inj htail
    ((length_twoDigits (minute_lt a)).trans (length_twoDigits (minute_lt b)).symm)
  obtain ⟨-, hseconds⟩ := List.cons.inj hrest
  obtain ⟨hsecond, hhalf⟩ := List.append_inj hseconds
    ((length_twoDigits (second_lt a)).trans (length_twoDigits (second_lt b)).symm)
  refine ⟨twoDigits_inj (minute_lt a) (minute_lt b) hminute,
    twoDigits_inj (second_lt a) (second_lt b) hsecond, ?_⟩
  have hletter : (if a / 3600 < 12 then 'A' else 'P') = if b / 3600 < 12 then 'A' else 'P' :=
    List.head_eq_of_cons_eq (List.cons.inj hhalf).2
  by_cases ha : a / 3600 < 12
  · by_cases hb : b / 3600 < 12
    · exact iff_of_true ha hb
    · rw [if_pos ha, if_neg hb] at hletter
      exact absurd hletter (by decide)
  · by_cases hb : b / 3600 < 12
    · rw [if_neg ha, if_pos hb] at hletter
      exact absurd hletter (by decide)
    · exact iff_of_false ha hb

theorem daySecond_lt (millis : Int) : daySecond millis < 86400 := by
  unfold daySecond
  omega

/-- A stamp tells the second of the day and nothing else. -/
theorem timeOfDay_eq_iff {a b : Int} : timeOfDay a = timeOfDay b ↔ daySecond a = daySecond b := by
  constructor
  · intro h
    have hchars := congrArg String.toList h
    rw [toList_timeOfDay rfl, toList_timeOfDay rfl] at hchars
    obtain ⟨hface, htail⟩ := List.append_inj' hchars
      ((length_clockTail _).trans (length_clockTail _).symm)
    obtain ⟨hminute, hsecond, hhalf⟩ := clockTail_inj htail
    have ha := daySecond_lt a
    have hb := daySecond_lt b
    have hhour := faceHour_inj (by omega) (by omega) hhalf (Text.natChars_inj hface)
    omega
  · intro h
    have hchars := (toList_timeOfDay h).trans (toList_timeOfDay rfl).symm
    exact String.toList_inj.1 hchars

theorem sameSecond_iff (a b : Int64) :
    SameSecond a b ↔ timeOfDay a.toInt = timeOfDay b.toInt := by
  rw [timeOfDay_eq_iff]
  unfold SameSecond daySecond Int.ModEq
  omega

/-- The bytes of a text. -/
def textBytes (s : String) : List UInt8 := s.toList.flatMap String.utf8EncodeChar

theorem encode_plain {c : Char} (h : c.toNat < 128) :
    String.utf8EncodeChar c = [UInt8.ofNat c.toNat] := by
  have hle : c.val.toNat ≤ 127 := Nat.le_of_lt_succ h
  exact if_pos hle

theorem flatMap_encode_lt {cs ds : List Char} (hcs : ∀ c ∈ cs, c.toNat < 128)
    (hds : ∀ d ∈ ds, d.toNat < 128) (h : cs < ds) :
    cs.flatMap String.utf8EncodeChar < ds.flatMap String.utf8EncodeChar := by
  induction cs generalizing ds with
  | nil =>
    cases ds with
    | nil => exact absurd h (List.lt_irrefl _)
    | cons d ds =>
      rw [List.flatMap_cons, encode_plain (hds d List.mem_cons_self)]
      exact List.nil_lt_cons _ _
  | cons c cs ih =>
    cases ds with
    | nil => exact absurd h (List.not_lt_nil _)
    | cons d ds =>
      rw [List.forall_mem_cons] at hcs hds
      rw [List.flatMap_cons, List.flatMap_cons, encode_plain hcs.1, encode_plain hds.1]
      rcases List.cons_lt_cons_iff.1 h with hlt | ⟨rfl, hrest⟩
      · have hbyte : UInt8.ofNat c.toNat < UInt8.ofNat d.toNat := by
          have hc : c.toNat < UInt8.size := Nat.lt_trans hcs.1 (by decide)
          have hd : d.toNat < UInt8.size := Nat.lt_trans hds.1 (by decide)
          rw [UInt8.lt_iff_toNat_lt, UInt8.toNat_ofNat_of_lt' hc, UInt8.toNat_ofNat_of_lt' hd]
          exact hlt
        exact List.cons_lt_cons_iff.2 (.inl hbyte)
      · exact List.cons_lt_cons_iff.2 (.inr ⟨rfl, ih hcs.2 hds.2 hrest⟩)

theorem toNat_digitChar_lt : ∀ d < 10, (Nat.digitChar d).toNat < 128 := by decide

/-- The letters of a stamp take one byte each. -/
theorem toNat_lt_of_mem_timeOfDay {millis : Int} {c : Char} (h : c ∈ (timeOfDay millis).toList) :
    c.toNat < 128 := by
  have htwo {n : Nat} (hn : n < 100) (hc : c ∈ (twoDigits n).toList) : c.toNat < 128 := by
    rw [toList_twoDigits hn] at hc
    rw [List.mem_cons, List.mem_singleton] at hc
    rcases hc with rfl | rfl
    · exact toNat_digitChar_lt _ (by omega)
    · exact toNat_digitChar_lt _ (Nat.mod_lt n (by decide))
  rw [toList_timeOfDay rfl, List.mem_append, clockTail, List.mem_cons, List.mem_append,
    List.mem_cons, List.mem_append] at h
  rcases h with hhour | rfl | hminute | rfl | hsecond | hhalf
  · have hdigit := Text.isDigit_of_mem_natChars hhour
    rw [Char.isDigit, Bool.and_eq_true, decide_eq_true_eq, decide_eq_true_eq] at hdigit
    have hnine : c.toNat ≤ '9'.toNat := UInt32.le_iff_toNat_le.1 hdigit.2
    exact Nat.lt_of_le_of_lt hnine (by decide)
  · decide
  · exact htwo (minute_lt _) hminute
  · decide
  · exact htwo (second_lt _) hsecond
  · split at hhalf
    all_goals
      rw [List.mem_cons, List.mem_cons, List.mem_singleton] at hhalf
      rcases hhalf with rfl | rfl | rfl <;> decide

/-- Stamps stand in the order of their bytes. -/
theorem textBytes_lt {a b : Int} (h : timeOfDay a < timeOfDay b) :
    textBytes (timeOfDay a) < textBytes (timeOfDay b) :=
  flatMap_encode_lt (fun _ => toNat_lt_of_mem_timeOfDay) (fun _ => toNat_lt_of_mem_timeOfDay) h

end CallMetrics
