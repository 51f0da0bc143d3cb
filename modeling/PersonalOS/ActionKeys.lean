import PersonalOS.CalendarWrites
import PersonalOS.IdempotencyGuard
import PersonalOS.Identifiers
import Mathlib.Data.List.DropRight
import Mathlib.Tactic.IntervalCases

/-! # The idempotency keys of proposed actions

Which proposals the graph gives the same key.

* **Dates.** A day is recovered from its year, month and day (`civilDate_injective`), and so is the
  minute from a stamp (`stamp_eq_iff`).
* **Texts.** Before it is cut, the text of a key tells the parts apart: an application from a message,
  a logical key from a stamp.  It does not tell an event id from an etag.
* **Keys.** A key is the text cut to 255 characters, without the blanks at its end.  What it shows of
  the parts is their beginnings (`LogicalAction.Apart`), and the keys of two actions differ if and only
  if these do (`action_keys_separate_iff`). -/

namespace PersonalOS

/-! ### Dates -/

/-- The days of the years of an era before this one. -/
def daysBefore (yearOfEra : ℕ) : ℕ := 365 * yearOfEra + yearOfEra / 4 - yearOfEra / 100

/-- The year a day of an era falls in. -/
def yearOf (dayOfEra : ℕ) : ℕ :=
  (dayOfEra - dayOfEra / 1460 + dayOfEra / 36524 - dayOfEra / 146096) / 365

theorem yearOf_lt {dayOfEra : ℕ} (h : dayOfEra < 146097) : yearOf dayOfEra < 400 := by
  unfold yearOf
  omega

theorem daysBefore_yearOf {dayOfEra : ℕ} (h : dayOfEra < 146097) :
    daysBefore (yearOf dayOfEra) ≤ dayOfEra ∧ dayOfEra ≤ daysBefore (yearOf dayOfEra) + 365 := by
  have hyear : yearOf dayOfEra =
      (dayOfEra - dayOfEra / 1460 + dayOfEra / 36524 - dayOfEra / 146096) / 365 := rfl
  unfold daysBefore
  generalize hcentury : yearOf dayOfEra / 100 = century
  generalize hyears : yearOf dayOfEra = year at *
  generalize hcenturies : dayOfEra / 36524 = centuries at *
  generalize heras : dayOfEra / 146096 = eras at *
  -- With the centuries fixed what is left is linear.
  have hcentury_lt : century < 4 := by omega
  have hcenturies_lt : centuries < 5 := by omega
  have heras_lt : eras < 2 := by omega
  interval_cases century <;> interval_cases centuries <;> interval_cases eras <;> omega

theorem civilDate_eq (days : ℤ) :
    ∃ era : ℤ, ∃ dayOfEra dayOfYear month : ℕ, dayOfEra < 146097 ∧ dayOfYear ≤ 365 ∧
      days + 719468 = era * 146097 + dayOfEra ∧ dayOfEra = daysBefore (yearOf dayOfEra) + dayOfYear ∧
      month = (5 * dayOfYear + 2) / 153 ∧
      civilDate days = (yearOf dayOfEra + era * 400 +
          (if (if month < 10 then month + 3 else month - 9) ≤ 2 then 1 else 0),
        (if month < 10 then month + 3 else month - 9), dayOfYear - (153 * month + 2) / 5 + 1) := by
  have hlt : ((days + 719468) % 146097).toNat < 146097 := by omega
  obtain ⟨hfrom, hto⟩ := daysBefore_yearOf hlt
  refine ⟨(days + 719468) / 146097, ((days + 719468) % 146097).toNat, _, _, hlt, ?_, ?_,
    (Nat.add_sub_cancel' hfrom).symm, rfl, rfl⟩
  · omega
  · omega

/-- Different days have different dates. -/
theorem civilDate_injective : Function.Injective civilDate := by
  intro days days' h
  obtain ⟨era, dayOfEra, dayOfYear, month, hlt, hyear, hdays, hday, hmonth, hdate⟩ := civilDate_eq days
  obtain ⟨era', dayOfEra', dayOfYear', month', hlt', hyear', hdays', hday', hmonth', hdate'⟩ :=
    civilDate_eq days'
  have hyears := yearOf_lt hlt
  have hyears' := yearOf_lt hlt'
  rw [hdate, hdate'] at h
  obtain ⟨hy, hmd⟩ := Prod.mk.inj h
  obtain ⟨hm, hd⟩ := Prod.mk.inj hmd
  have hmonths : month = month' := by
    split at hm <;> split at hm <;> omega
  subst hmonths
  have hyearday : dayOfYear = dayOfYear' := by omega
  have hsame : yearOf dayOfEra = yearOf dayOfEra' ∧ era = era' := by
    split at hy <;> omega
  rw [hsame.1] at hday
  omega

/-! ### Stamps -/

theorem paddedNumber_two {n : ℕ} (h : n < 100) :
    (paddedNumber 2 n).toList = [Nat.digitChar (n / 10), Nat.digitChar (n % 10)] := by
  revert h
  revert n
  decide

theorem digitChar_inj {m n : ℕ} (hm : m < 10) (hn : n < 10) (h : Nat.digitChar m = Nat.digitChar n) :
    m = n := by
  revert h
  revert hn
  revert n
  revert hm
  revert m
  decide

theorem paddedNumber_two_inj {m n : ℕ} (hm : m < 100) (hn : n < 100)
    (h : (paddedNumber 2 m).toList = (paddedNumber 2 n).toList) : m = n := by
  rw [paddedNumber_two hm, paddedNumber_two hn] at h
  obtain ⟨htens, hrest⟩ := List.cons.inj h
  have hones := (List.cons.inj hrest).1
  have h₁ := digitChar_inj (by omega) (by omega) htens
  have h₂ := digitChar_inj (by omega) (by omega) hones
  omega

theorem paddedNumber_two_length {n : ℕ} (h : n < 100) : (paddedNumber 2 n).toList.length = 2 := by
  rw [paddedNumber_two h]
  rfl

theorem toList_toString_inj {m n : ℤ} (h : (toString m).toList = (toString n).toList) : m = n := by
  have hnat : ∀ {a b : ℕ}, (Nat.repr a).toList = (Nat.repr b).toList → a = b := by
    intro a b hab
    rw [Nat.toList_repr, Nat.toList_repr] at hab
    rw [← Nat.ofDigitChars_ten_toDigits (n := a), hab, Nat.ofDigitChars_ten_toDigits]
  have hminus : ∀ {a b : ℕ}, (Nat.repr a).toList ≠ ("-" ++ Nat.repr b : String).toList := by
    intro a b hab
    have hmem : '-' ∈ (Nat.repr a).toList := by
      rw [hab, String.toList_append]
      exact List.mem_append_left _ (by decide)
    rw [Nat.toList_repr] at hmem
    exact absurd (Nat.isDigit_of_mem_toDigits (by decide) (by decide) hmem) (by decide)
  cases m with
  | ofNat a =>
      cases n with
      | ofNat b => rw [hnat h]
      | negSucc b => exact absurd h hminus
  | negSucc a =>
      cases n with
      | ofNat b => exact absurd h.symm hminus
      | negSucc b =>
          have hab : ("-" ++ Nat.repr (a + 1) : String).toList = ("-" ++ Nat.repr (b + 1) : String).toList := h
          rw [String.toList_append, String.toList_append] at hab
          rw [Nat.succ.inj (hnat (List.append_cancel_left hab))]

/-- The month, the day and the minute of the day of a stamp, after the year. -/
def stampRest (moment : Instant) : List Char :=
  let date := civilDate (WorkingHours.date moment)
  let minute := (WorkingHours.time moment / minutes 1).toNat
  (paddedNumber 2 date.2.1).toList ++ (paddedNumber 2 date.2.2).toList ++ 'T' ::
    ((paddedNumber 2 (minute / 60)).toList ++ (paddedNumber 2 (minute % 60)).toList)

theorem toList_stamp (moment : Instant) : (stamp moment).toList =
    (toString (civilDate (WorkingHours.date moment)).1).toList ++ stampRest moment := by
  unfold stamp stampRest clockText
  dsimp only
  have hletter : ("T" : String).toList = ['T'] := rfl
  have hempty : ("" : String).toList = [] := rfl
  simp only [String.toList_append, List.append_assoc, hletter, hempty, List.nil_append,
    List.singleton_append]

theorem civilDate_month_lt (days : ℤ) : (civilDate days).2.1 < 100 ∧ (civilDate days).2.2 < 100 := by
  obtain ⟨era, dayOfEra, dayOfYear, month, -, hyear, -, -, hmonth, hdate⟩ := civilDate_eq days
  rw [hdate]
  dsimp only
  constructor
  · split <;> omega
  · omega

theorem minute_lt (moment : Instant) : (WorkingHours.time moment / minutes 1).toNat < 1440 := by
  unfold WorkingHours.time minutes dayLength
  unfold Instant at *
  omega

theorem stampRest_length (moment : Instant) : (stampRest moment).length = 9 := by
  obtain ⟨hmonth, hday⟩ := civilDate_month_lt (WorkingHours.date moment)
  have hminute := minute_lt moment
  unfold stampRest
  simp only [List.length_append, List.length_cons]
  rw [paddedNumber_two_length hmonth, paddedNumber_two_length hday, paddedNumber_two_length (by omega),
    paddedNumber_two_length (by omega)]

/-- **Stamps**: two moments have the same stamp exactly when they are in the same minute. -/
theorem stamp_eq_iff {moment moment' : Instant} :
    stamp moment = stamp moment' ↔ moment / minutes 1 = moment' / minutes 1 := by
  constructor
  · intro h
    have hlist := congrArg String.toList h
    rw [toList_stamp, toList_stamp] at hlist
    obtain ⟨hyear, hrest⟩ := List.append_inj' hlist
      ((stampRest_length moment).trans (stampRest_length moment').symm)
    have hlt := civilDate_month_lt (WorkingHours.date moment)
    have hlt' := civilDate_month_lt (WorkingHours.date moment')
    have hminute := minute_lt moment
    have hminute' := minute_lt moment'
    unfold stampRest at hrest
    dsimp only at hrest
    obtain ⟨hmonthday, hclock⟩ := List.append_inj hrest (by
      rw [List.length_append, List.length_append, paddedNumber_two_length hlt.1,
        paddedNumber_two_length hlt.2, paddedNumber_two_length hlt'.1, paddedNumber_two_length hlt'.2])
    obtain ⟨hmonth, hday⟩ := List.append_inj hmonthday (by
      rw [paddedNumber_two_length hlt.1, paddedNumber_two_length hlt'.1])
    obtain ⟨hhour, hmin⟩ := List.append_inj (List.cons.inj hclock).2 (by
      rw [paddedNumber_two_length (by omega), paddedNumber_two_length (by omega)])
    have hdate : civilDate (WorkingHours.date moment) = civilDate (WorkingHours.date moment') :=
      Prod.ext (toList_toString_inj hyear) (Prod.ext (paddedNumber_two_inj hlt.1 hlt'.1 hmonth)
        (paddedNumber_two_inj hlt.2 hlt'.2 hday))
    have hdays := civilDate_injective hdate
    have hhours := paddedNumber_two_inj (by omega) (by omega) hhour
    have hminutes := paddedNumber_two_inj (by omega) (by omega) hmin
    unfold WorkingHours.date WorkingHours.time minutes dayLength at *
    unfold Instant at *
    omega
  · intro h
    have hdays : WorkingHours.date moment = WorkingHours.date moment' := by
      unfold WorkingHours.date minutes dayLength at *
      unfold Instant at *
      omega
    have hminute : WorkingHours.time moment / minutes 1 = WorkingHours.time moment' / minutes 1 := by
      unfold WorkingHours.date WorkingHours.time minutes dayLength at *
      unfold Instant at *
      omega
    unfold stamp clockText
    rw [hdays, hminute]

theorem mem_stamp {moment : Instant} {c : Char} (h : c ∈ (stamp moment).toList) :
    c.isDigit = true ∨ c = '-' ∨ c = 'T' := by
  have hpadded : ∀ {n : ℕ}, c ∈ (paddedNumber 2 n).toList → c.isDigit = true := by
    intro n hmem
    unfold paddedNumber at hmem
    rw [String.toList_append, List.mem_append] at hmem
    rcases hmem with hmem | hmem
    · rw [String.toList_ofList] at hmem
      rw [List.eq_of_mem_replicate hmem]
      decide
    · have hdigits : (toString n).toList = Nat.toDigits 10 n := Nat.toList_repr
      rw [hdigits] at hmem
      exact Nat.isDigit_of_mem_toDigits (by decide) (by decide) hmem
  rw [toList_stamp, List.mem_append] at h
  rcases h with h | h
  · cases hyear : (civilDate (WorkingHours.date moment)).1 with
    | ofNat year =>
        rw [hyear] at h
        have hdigits : (toString (Int.ofNat year)).toList = Nat.toDigits 10 year := Nat.toList_repr
        rw [hdigits] at h
        exact Or.inl (Nat.isDigit_of_mem_toDigits (by decide) (by decide) h)
    | negSucc year =>
        rw [hyear] at h
        have htext : (toString (Int.negSucc year)).toList = '-' :: Nat.toDigits 10 (year + 1) := by
          show ("-" ++ Nat.repr (year + 1) : String).toList = _
          rw [String.toList_append, Nat.toList_repr]
          rfl
        rw [htext] at h
        rcases List.mem_cons.mp h with rfl | h
        · exact Or.inr (Or.inl rfl)
        · exact Or.inl (Nat.isDigit_of_mem_toDigits (by decide) (by decide) h)
  · unfold stampRest at h
    simp only [List.mem_append, List.mem_cons] at h
    rcases h with (h | h) | rfl | h | h
    · exact Or.inl (hpadded h)
    · exact Or.inl (hpadded h)
    · exact Or.inr (Or.inr rfl)
    · exact Or.inl (hpadded h)
    · exact Or.inl (hpadded h)

/-! ### Blanks and separators -/

theorem rdropWhile_append_cons {l m : List Char} {c : Char} (hc : isSpace c = false) :
    (l ++ c :: m).rdropWhile isSpace = l ++ c :: m.rdropWhile isSpace := by
  have hcons : (c :: l.reverse).dropWhile isSpace = c :: l.reverse :=
    List.dropWhile_cons_of_neg (by rw [hc]; exact Bool.false_ne_true)
  unfold List.rdropWhile
  rw [List.reverse_append, List.reverse_cons, List.append_assoc, List.singleton_append,
    List.dropWhile_append, hcons]
  split
  · rename_i hempty
    rw [List.isEmpty_iff.mp hempty]
    simp
  · simp

theorem rdropWhile_append_of_forall {l m : List Char} (hm : m ≠ []) (h : ∀ c ∈ m, isSpace c = false) :
    (l ++ m).rdropWhile isSpace = l ++ m := by
  obtain ⟨front, c, rfl⟩ := (List.eq_nil_or_concat m).resolve_left hm
  rw [List.concat_eq_append, ← List.append_assoc]
  exact rdropWhile_append_cons (h c (by simp))

theorem stripChars_cons {c : Char} {l : List Char} (hc : isSpace c = false) :
    stripChars (c :: l) = (c :: l).rdropWhile isSpace := by
  unfold stripChars
  rw [List.dropWhile_cons_of_neg (by rw [hc]; exact Bool.false_ne_true)]
  rfl

/-- What is shown of a text that may take so many characters at the end of a key. -/
def shown (n : ℕ) (l : List Char) : List Char := (l.take n).rdropWhile isSpace

/-- A cut behind a character that is no blank leaves what comes before it as it is.  The cut is
a hypothesis, for the lengths of the texts in front are known only as numbers. -/
theorem rdropWhile_take {front m : List Char} {c : Char} {cut n : ℕ} (hc : isSpace c = false)
    (hcut : cut = front.length + (n + 1)) :
    ((front ++ c :: m).take cut).rdropWhile isSpace = front ++ c :: shown n m := by
  rw [hcut, List.take_length_add_append, List.take_succ_cons, rdropWhile_append_cons hc]
  rfl

theorem split_first {l l' r r' : List Char} {c : Char} (h : c ∉ l) (h' : c ∉ l')
    (heq : l ++ c :: r = l' ++ c :: r') : l = l' ∧ r = r' := by
  induction l generalizing l' with
  | nil =>
      cases l' with
      | nil => exact ⟨rfl, (List.cons.inj heq).2⟩
      | cons x l' => exact absurd ((List.cons.inj heq).1 ▸ List.mem_cons_self) h'
  | cons x l ih =>
      cases l' with
      | nil => exact absurd ((List.cons.inj heq).1 ▸ List.mem_cons_self) h
      | cons y l' =>
          obtain ⟨rfl, hrest⟩ := List.cons.inj heq
          obtain ⟨rfl, hr⟩ := ih (fun hmem => h (List.mem_cons_of_mem _ hmem))
            (fun hmem => h' (List.mem_cons_of_mem _ hmem)) hrest
          exact ⟨rfl, hr⟩

theorem split_last {l l' r r' : List Char} {c : Char} (h : c ∉ r) (h' : c ∉ r')
    (heq : l ++ c :: r = l' ++ c :: r') : l = l' ∧ r = r' := by
  have hreverse := congrArg List.reverse heq
  simp only [List.reverse_append, List.reverse_cons, List.append_assoc, List.singleton_append] at hreverse
  obtain ⟨hr, hl⟩ := split_first (fun hmem => h (List.mem_reverse.mp hmem))
    (fun hmem => h' (List.mem_reverse.mp hmem)) hreverse
  exact ⟨List.reverse_injective hl, List.reverse_injective hr⟩

theorem dash_not_mem_toDigits (n : ℕ) : '-' ∉ Nat.toDigits 16 n := by
  induction n using Nat.strongRecOn with
  | ind n ih =>
      rw [Nat.toDigits_eq_if (by decide)]
      split
      · rw [List.mem_singleton]
        exact (Nat.digitChar_ne '-' (by decide)).symm
      · rename_i hlt
        rw [List.mem_append, List.mem_singleton]
        rintro (hmem | hmem)
        · exact ih (n / 16) (by omega) hmem
        · exact Nat.digitChar_ne '-' (by decide) hmem.symm

theorem toList_uuidText (id : UUID) : ∃ front back, (UUID.text id).toList = front ++ back ∧
    front.length = 24 ∧ '-' ∉ back := by
  let digits := Nat.toDigits 16 id
  let hex := List.replicate (32 - digits.length) '0' ++ digits
  have hlength : 32 ≤ hex.length := by
    simp only [hex, List.length_append, List.length_replicate]
    omega
  refine ⟨hex.take 8 ++ '-' :: (hex.drop 8).take 4 ++ '-' :: (hex.drop 12).take 4 ++
    '-' :: (hex.drop 16).take 4 ++ ['-'], hex.drop 20, ?_, ?_, fun hmem => ?_⟩
  · show (String.ofList _).toList = _
    rw [String.toList_ofList]
    simp [hex, digits]
  · simp only [List.length_append, List.length_cons, List.length_take, List.length_drop, List.length_nil]
    omega
  · rcases List.mem_append.mp (List.mem_of_mem_drop hmem) with hzero | hdigit
    · exact absurd (List.eq_of_mem_replicate hzero) (by decide)
    · exact dash_not_mem_toDigits id hdigit

/-- A UUID has 128 bits. -/
abbrev Identifier := {id : UUID // id < 2 ^ 128}

theorem uuidText_length (id : Identifier) : (UUID.text id).toList.length = 36 := by
  have hdigits : (Nat.toDigits 16 id).length ≤ 32 :=
    (Nat.length_toDigits_le_iff (by decide) (by decide)).mpr (id.property.trans_eq (by norm_num))
  show (String.ofList _).toList.length = 36
  rw [String.toList_ofList]
  simp only [List.length_append, List.length_cons, List.length_take, List.length_drop,
    List.length_replicate]
  omega

theorem uuidText_append_inj {id id' : UUID} {r r' : List Char}
    (h : (UUID.text id).toList ++ '-' :: r = (UUID.text id').toList ++ '-' :: r') :
    UUID.text id = UUID.text id' ∧ r = r' := by
  obtain ⟨front, back, htext, hlength, hback⟩ := toList_uuidText id
  obtain ⟨front', back', htext', hlength', hback'⟩ := toList_uuidText id'
  rw [htext, htext', List.append_assoc, List.append_assoc] at h
  obtain ⟨hfront, hrest⟩ := List.append_inj h (hlength.trans hlength'.symm)
  obtain ⟨hb, hr⟩ := split_first hback hback' hrest
  refine ⟨String.toList_injective ?_, hr⟩
  rw [htext, htext', hfront, hb]

/-! ### Keys -/

def submissionKey (packetDedupeKey : String) : String := first255 s!"submit-{packetDedupeKey}"

def replyKey (applicationId : UUID) (providerMessageId : String) : String :=
  first255 s!"reply-{UUID.text applicationId}-{providerMessageId}"

/-- Where an update finds its event: its etag or, without one, when it started. -/
def ScheduleChange.was (change : ScheduleChange) : String :=
  (change.etag.filter (· ≠ "")).getD (change.previousStartsAt.elim "" stamp)

/-- The id an update gives its event. -/
def ScheduleChange.event (change : ScheduleChange) : String := change.eventId.getD "None"

/-- The event of an update with where it is found, as its key shows them. -/
def ScheduleChange.found (change : ScheduleChange) : String := s!"{change.event}:{change.was}"

/-- What the graph proposes: to submit a packet, to reply to a message, or to write to the
calendar. -/
inductive LogicalAction where
  | submission (packetDedupeKey : String)
  | reply (applicationId : Identifier) (providerMessageId : String)
  | calendar (change : ScheduleChange)

namespace LogicalAction

/-- The key of its intent, which strips and checks what it is given. -/
def idempotencyKey : LogicalAction → Except String String
  | submission packetDedupeKey => validateIdempotencyKey (submissionKey packetDedupeKey)
  | reply applicationId providerMessageId =>
      validateIdempotencyKey (replyKey applicationId providerMessageId)
  | calendar change => validateIdempotencyKey change.idempotencyKey

/-- The text of the key before it is cut. -/
def text : LogicalAction → List Char
  | submission packetDedupeKey => "submit".toList ++ '-' :: packetDedupeKey.toList
  | reply applicationId providerMessageId =>
      "reply-".toList ++ ((UUID.text applicationId).toList ++ '-' :: providerMessageId.toList)
  | calendar change =>
      if change.op = .create then
        "cal-create:".toList ++ (change.logicalKey.toList ++ ':' :: (stamp change.startsAt).toList)
      else
        "cal-update:".toList ++
          ((change.event.toList ++ ':' :: change.was.toList) ++ ':' :: (stamp change.startsAt).toList)

/-- What is kept of it. -/
def kept (action : LogicalAction) : List Char := (action.text.take 255).rdropWhile isSpace

/-- What the key of a calendar write shows of a text with the stamp behind it, of which 244 characters
are kept: two of them with their stamps where both fit, the beginnings of the texts where no stamp is left,
and where one stamp is cut off in part the beginnings of both together. -/
def StampedApart (key key' : String) (startsAt startsAt' : Instant) : Prop :=
  if key.length + 1 + (stamp startsAt).length ≤ 244 ∧ key'.length + 1 + (stamp startsAt').length ≤ 244 then
    key ≠ key' ∨ startsAt / minutes 1 ≠ startsAt' / minutes 1
  else if 244 ≤ key.length ∧ 244 ≤ key'.length then
    shown 244 key.toList ≠ shown 244 key'.toList
  else
    shown 244 (key.toList ++ ':' :: (stamp startsAt).toList) ≠
      shown 244 (key'.toList ++ ':' :: (stamp startsAt').toList)

/-- What the keys show of the parts of the two actions tells them apart. -/
def Apart : LogicalAction → LogicalAction → Prop
  | submission key, submission key' => shown 248 key.toList ≠ shown 248 key'.toList
  | reply applicationId messageId, reply applicationId' messageId' =>
      applicationId ≠ applicationId' ∨ shown 212 messageId.toList ≠ shown 212 messageId'.toList
  | calendar change, calendar change' =>
      if change.op = .create then
        change'.op ≠ .create ∨
          StampedApart change.logicalKey change'.logicalKey change.startsAt change'.startsAt
      else
        change'.op = .create ∨ StampedApart change.found change'.found change.startsAt change'.startsAt
  | _, _ => True

theorem text_cons (action : LogicalAction) :
    ∃ c l, action.text.take 255 = c :: l ∧ isSpace c = false := by
  cases action with
  | submission packetDedupeKey => exact ⟨'s', _, rfl, by decide⟩
  | reply applicationId providerMessageId => exact ⟨'r', _, rfl, by decide⟩
  | calendar change =>
      dsimp only [text]
      split
      · exact ⟨'c', _, rfl, by decide⟩
      · exact ⟨'c', _, rfl, by decide⟩

theorem idempotencyKey_eq (action : LogicalAction) :
    action.idempotencyKey = validateIdempotencyKey (String.ofList (action.text.take 255)) := by
  cases action with
  | submission packetDedupeKey =>
      have htext : (s!"submit-{packetDedupeKey}").toList = "submit".toList ++ '-' :: packetDedupeKey.toList := by
        show ("submit-" ++ packetDedupeKey : String).toList = _
        rw [String.toList_append]
        rfl
      dsimp only [idempotencyKey, submissionKey, first255, text]
      rw [htext]
  | reply applicationId providerMessageId =>
      have htext : (s!"reply-{UUID.text applicationId}-{providerMessageId}").toList =
          "reply-".toList ++ ((UUID.text applicationId).toList ++ '-' :: providerMessageId.toList) := by
        show ("reply-" ++ UUID.text applicationId ++ "-" ++ providerMessageId : String).toList = _
        have hdash : ("-" : String).toList = ['-'] := rfl
        simp only [String.toList_append, List.append_assoc, hdash, List.singleton_append]
      dsimp only [idempotencyKey, replyKey, first255, text]
      rw [htext]
  | calendar change =>
      have hcolon : (":" : String).toList = [':'] := rfl
      dsimp only [idempotencyKey, ScheduleChange.idempotencyKey, text]
      by_cases hop : change.op = .create
      · have htext : (s!"cal-create:{change.logicalKey}:{stamp change.startsAt}").toList =
            "cal-create:".toList ++ (change.logicalKey.toList ++ ':' :: (stamp change.startsAt).toList) := by
          show ("cal-create:" ++ change.logicalKey ++ ":" ++ stamp change.startsAt : String).toList = _
          simp only [String.toList_append, List.append_assoc, hcolon, List.singleton_append]
        rw [if_pos hop, if_pos hop, calendarCreateKey, first255, htext]
      · have htext : (s!"cal-update:{change.event}:{change.was}:{stamp change.startsAt}").toList =
            "cal-update:".toList ++ ((change.event.toList ++ ':' :: change.was.toList) ++
              ':' :: (stamp change.startsAt).toList) := by
          show ("cal-update:" ++ change.event ++ ":" ++ change.was ++ ":" ++ stamp change.startsAt
            : String).toList = _
          simp only [String.toList_append, List.append_assoc, hcolon, List.nil_append, List.cons_append]
        rw [if_neg hop, if_neg hop, ← htext]
        rfl

/-- **The key** is what is kept of the text, if that is long enough. -/
theorem idempotencyKey_eq_ok {action : LogicalAction} {key : String} :
    action.idempotencyKey = .ok key ↔
      key = String.ofList action.kept ∧ idempotencyKeyMinLength ≤ action.kept.length := by
  have hstrip : strip (String.ofList (action.text.take 255)) = String.ofList action.kept := by
    obtain ⟨c, l, htext, hc⟩ := action.text_cons
    unfold strip kept
    rw [String.toList_ofList, htext, stripChars_cons hc]
  have hlength : action.kept.length ≤ idempotencyKeyMaxLength := by
    have hpre := List.IsPrefix.length_le (List.rdropWhile_prefix isSpace (action.text.take 255))
    rw [List.length_take] at hpre
    exact hpre.trans (min_le_left ..)
  rw [idempotencyKey_eq, validateIdempotencyKey, hstrip, String.length_ofList]
  split
  · rename_i hshort
    constructor
    · intro h
      cases h
    · intro h
      exact absurd h.2 (not_le.mpr hshort)
  · rename_i hlong
    rw [if_neg (not_lt.mpr hlength)]
    constructor
    · intro h
      exact ⟨(Except.ok.inj h).symm, not_lt.mp hlong⟩
    · rintro ⟨rfl, -⟩
      rfl

theorem not_space_of_mem_stamp {moment : Instant} {c : Char} (h : c ∈ (stamp moment).toList) :
    isSpace c = false := by
  rcases mem_stamp h with hdigit | rfl | rfl
  · have hbounds : 48 ≤ c.toNat ∧ c.toNat ≤ 57 := by
      exact toNat_of_isDigit hdigit
    unfold isSpace
    simp only [decide_eq_false_iff_not]
    omega
  · decide
  · decide

theorem colon_not_mem_stamp (moment : Instant) : ':' ∉ (stamp moment).toList := by
  intro h
  rcases mem_stamp h with hdigit | hdash | hletter
  · exact absurd hdigit (by decide)
  · exact absurd hdash (by decide)
  · exact absurd hletter (by decide)

theorem stamp_ne_nil (moment : Instant) : (stamp moment).toList ≠ [] := by
  intro h
  have hlength := congrArg List.length h
  rw [toList_stamp, List.length_append, stampRest_length] at hlength
  simp at hlength

theorem rdropWhile_stamp (l : List Char) (moment : Instant) :
    (l ++ ':' :: (stamp moment).toList).rdropWhile isSpace = l ++ ':' :: (stamp moment).toList := by
  have hstamp : ([] ++ (stamp moment).toList).rdropWhile isSpace = [] ++ (stamp moment).toList :=
    rdropWhile_append_of_forall (stamp_ne_nil moment) fun c hc => not_space_of_mem_stamp hc
  rw [List.nil_append] at hstamp
  rw [rdropWhile_append_cons (by decide), hstamp]

theorem stamped_eq_iff {l l' : List Char} {moment moment' : Instant} :
    l ++ ':' :: (stamp moment).toList = l' ++ ':' :: (stamp moment').toList ↔
      l = l' ∧ moment / minutes 1 = moment' / minutes 1 := by
  rw [← stamp_eq_iff]
  constructor
  · intro h
    obtain ⟨hl, hr⟩ := split_last (colon_not_mem_stamp moment) (colon_not_mem_stamp moment') h
    exact ⟨hl, String.toList_injective hr⟩
  · rintro ⟨rfl, h⟩
    rw [h]

theorem shown_stamped_ne_iff {key key' : String} {startsAt startsAt' : Instant} :
    shown 244 (key.toList ++ ':' :: (stamp startsAt).toList) ≠
        shown 244 (key'.toList ++ ':' :: (stamp startsAt').toList) ↔
      StampedApart key key' startsAt startsAt' := by
  have hfits : ∀ {key : String} {startsAt : Instant}, key.length + 1 + (stamp startsAt).length ≤ 244 →
      shown 244 (key.toList ++ ':' :: (stamp startsAt).toList) =
        key.toList ++ ':' :: (stamp startsAt).toList := by
    intro key startsAt h
    unfold shown
    rw [List.take_of_length_le, rdropWhile_stamp]
    rw [List.length_append, List.length_cons, String.length_toList, String.length_toList]
    omega
  have hlong : ∀ {key : String} {rest : List Char}, 244 ≤ key.length →
      shown 244 (key.toList ++ rest) = shown 244 key.toList := by
    intro key rest h
    unfold shown
    rw [List.take_append_of_le_length (String.length_toList ▸ h)]
  unfold StampedApart
  split
  · rename_i h
    rw [hfits h.1, hfits h.2, Ne, stamped_eq_iff, not_and_or, String.toList_inj]
  · split
    · rename_i h
      rw [hlong h.1, hlong h.2]
    · exact Iff.rfl

theorem kept_submission (packetDedupeKey : String) :
    (submission packetDedupeKey).kept = "submit".toList ++ '-' :: shown 248 packetDedupeKey.toList :=
  rdropWhile_take (by decide) (by decide)

theorem kept_reply (applicationId : Identifier) (providerMessageId : String) :
    (reply applicationId providerMessageId).kept =
      "reply-".toList ++ ((UUID.text applicationId).toList ++ '-' :: shown 212 providerMessageId.toList) := by
  dsimp only [kept, text]
  rw [← List.append_assoc, rdropWhile_take (n := 212) (by decide), List.append_assoc]
  rw [List.length_append, uuidText_length]
  rfl

theorem kept_calendar (change : ScheduleChange) : (calendar change).kept =
    if change.op = .create then
      "cal-create".toList ++ ':' :: shown 244 (change.logicalKey.toList ++ ':' :: (stamp change.startsAt).toList)
    else
      "cal-update".toList ++ ':' :: shown 244 (change.found.toList ++ ':' :: (stamp change.startsAt).toList) := by
  dsimp only [kept, text]
  split
  · exact @rdropWhile_take "cal-create".toList _ _ _ 244 (by decide) (by decide)
  · have hfound : change.found.toList = change.event.toList ++ ':' :: change.was.toList := by
      show (change.event ++ ":" ++ change.was : String).toList = _
      rw [String.toList_append, String.toList_append, List.append_assoc]
      rfl
    rw [hfound]
    exact @rdropWhile_take "cal-update".toList _ _ _ 244 (by decide) (by decide)

/-- The first letter of what is kept, by which the kinds differ. -/
def letter : LogicalAction → Char
  | submission _ => 's'
  | reply _ _ => 'r'
  | calendar _ => 'c'

theorem kept_head (action : LogicalAction) : action.kept.head? = some action.letter := by
  cases action with
  | submission key => rw [kept_submission]; rfl
  | reply id m => rw [kept_reply]; rfl
  | calendar change =>
      rw [kept_calendar]
      split <;> rfl

theorem kept_ne_of_letter {a b : LogicalAction} (h : a.letter ≠ b.letter) : a.kept ≠ b.kept := by
  intro hkept
  have hhead := congrArg List.head? hkept
  rw [kept_head, kept_head] at hhead
  exact h (Option.some.inj hhead)

/-- **What is kept** differs exactly when what is shown of the parts does. -/
theorem kept_ne_iff (a b : LogicalAction) : a.kept ≠ b.kept ↔ a.Apart b := by
  cases a with
  | submission key =>
      cases b with
      | submission key' =>
          rw [kept_submission, kept_submission, Ne, List.append_cancel_left_eq, List.cons_inj_right]
          rfl
      | reply id m => exact iff_of_true (kept_ne_of_letter (by dsimp only [letter]; decide)) trivial
      | calendar change => exact iff_of_true (kept_ne_of_letter (by dsimp only [letter]; decide)) trivial
  | reply id m =>
      cases b with
      | submission key => exact iff_of_true (kept_ne_of_letter (by dsimp only [letter]; decide)) trivial
      | reply id' m' =>
          rw [kept_reply, kept_reply, Ne, List.append_cancel_left_eq]
          dsimp only [Apart]
          rw [← not_and_or, not_iff_not]
          constructor
          · intro h
            obtain ⟨hid, hm⟩ := uuidText_append_inj h
            exact ⟨Subtype.ext (UUID.text_injective hid), hm⟩
          · rintro ⟨rfl, hm⟩
            rw [hm]
      | calendar change => exact iff_of_true (kept_ne_of_letter (by dsimp only [letter]; decide)) trivial
  | calendar change =>
      cases b with
      | submission key => exact iff_of_true (kept_ne_of_letter (by dsimp only [letter]; decide)) trivial
      | reply id m => exact iff_of_true (kept_ne_of_letter (by dsimp only [letter]; decide)) trivial
      | calendar change' =>
          have hops : ∀ l l' : List Char, "cal-create".toList ++ l ≠ "cal-update".toList ++ l' := by
            intro l l' h
            have hletter : some 'c' = some 'u' := congrArg (fun text => text[4]?) h
            exact absurd hletter (by decide)
          rw [kept_calendar, kept_calendar]
          dsimp only [Apart]
          by_cases hop : change.op = .create
          · by_cases hop' : change'.op = .create
            · rw [if_pos hop, if_pos hop, if_pos hop', Ne, List.append_cancel_left_eq, List.cons_inj_right,
                or_iff_right (not_not_intro hop')]
              exact shown_stamped_ne_iff
            · rw [if_pos hop, if_pos hop, if_neg hop']
              exact iff_of_true (hops _ _) (Or.inl hop')
          · by_cases hop' : change'.op = .create
            · rw [if_neg hop, if_neg hop, if_pos hop']
              exact iff_of_true (hops _ _).symm (Or.inl hop')
            · rw [if_neg hop, if_neg hop, if_neg hop', Ne, List.append_cancel_left_eq, List.cons_inj_right,
                or_iff_right hop']
              exact shown_stamped_ne_iff

/-- The proposals are for the same write, message or packet, however it is described. -/
def Same : LogicalAction → LogicalAction → Prop
  | submission key, submission key' => key = key'
  | reply applicationId messageId, reply applicationId' messageId' =>
      applicationId = applicationId' ∧ messageId = messageId'
  | calendar change, calendar change' =>
      change.op = change'.op ∧ change.startsAt = change'.startsAt ∧
        (change.op = .create → change.logicalKey = change'.logicalKey) ∧
        (change.op ≠ .create → change.eventId = change'.eventId ∧ change.etag = change'.etag ∧
          change.previousStartsAt = change'.previousStartsAt)
  | _, _ => False

theorem text_of_same {a b : LogicalAction} (h : a.Same b) : a.text = b.text := by
  cases a with
  | submission key =>
      cases b with
      | submission key' => rw [show key = key' from h]
      | reply id m => exact h.elim
      | calendar change => exact h.elim
  | reply id m =>
      cases b with
      | submission key => exact h.elim
      | reply id' m' => rw [h.1, h.2]
      | calendar change => exact h.elim
  | calendar change =>
      cases b with
      | submission key => exact h.elim
      | reply id m => exact h.elim
      | calendar change' =>
          obtain ⟨hop, hstart, hcreate, hupdate⟩ := h
          dsimp only [text]
          rw [← hop, ← hstart]
          by_cases hc : change.op = .create
          · rw [if_pos hc, if_pos hc, hcreate hc]
          · obtain ⟨hid, hetag, hprevious⟩ := hupdate hc
            rw [if_neg hc, if_neg hc, ScheduleChange.event, ScheduleChange.event, ScheduleChange.was,
              ScheduleChange.was, hid, hetag, hprevious]

/-- The actions are different: another packet, another message, or another event, time or logical
key. -/
def Different : LogicalAction → LogicalAction → Prop
  | submission key, submission key' => key ≠ key'
  | reply _ messageId, reply _ messageId' => strip messageId ≠ strip messageId'
  | calendar change, calendar change' =>
      change.eventId ≠ change'.eventId ∨ change.slot ≠ change'.slot ∨
        change.logicalKey ≠ change'.logicalKey
  | _, _ => True

end LogicalAction

open LogicalAction

/-- **Keys**: an action that is proposed again gets the same key, and the keys of two actions differ if
and only if what they show of the actions' parts does. -/
theorem action_keys_separate_iff (a b : LogicalAction) (key : String) (h : a.idempotencyKey = .ok key) :
    (a.Same b → b.idempotencyKey = .ok key) ∧ (b.idempotencyKey ≠ .ok key ↔ a.Apart b) := by
  obtain ⟨rfl, hlong⟩ := idempotencyKey_eq_ok.mp h
  have hsame : b.idempotencyKey = .ok (String.ofList a.kept) ↔ a.kept = b.kept := by
    rw [idempotencyKey_eq_ok]
    constructor
    · intro hb
      exact String.ofList_injective hb.1
    · intro hkept
      rw [← hkept]
      exact ⟨rfl, hlong⟩
  refine ⟨fun hagain => hsame.mpr ?_, ?_⟩
  · rw [kept, kept, text_of_same hagain]
  · rw [Ne, hsame]
    exact kept_ne_iff a b

theorem action_keys_separate_iff_packets :
    (LogicalAction.submission "globex|engineer").idempotencyKey ≠ .ok "submit-acme|engineer" := by
  have hkey : (LogicalAction.submission "acme|engineer").idempotencyKey =
      .ok "submit-acme|engineer" := by
    rw [idempotencyKey_eq_ok]
    decide +kernel
  refine (action_keys_separate_iff _ (LogicalAction.submission "globex|engineer") _ hkey).2.mpr ?_
  show shown 248 _ ≠ shown 248 _
  decide +kernel

/-- The application of the replies. -/
def repliedApplication : Identifier := ⟨7, by decide⟩

/-- A message id of 240 characters with a last one. -/
def longMessageId (last : Char) : String := String.ofList (List.replicate 240 'm' ++ [last])

/-- The replies to two messages whose ids are long have the same key: their ends are cut off. -/
theorem long_ids_share_a_key :
    ¬ ∀ (a b : LogicalAction) (key : String), a.Different b → a.idempotencyKey = .ok key →
      b.idempotencyKey ≠ .ok key := by
  intro h
  have hid : ∀ last, (longMessageId last).toList = List.replicate 240 'm' ++ [last] := by
    intro last
    exact String.toList_ofList
  have hkept : ∀ last, (LogicalAction.reply repliedApplication (longMessageId last)).kept =
      (("reply-".toList ++ ((UUID.text repliedApplication).toList ++ '-' ::
        (List.replicate 240 'm' ++ [last]))).take 255).rdropWhile isSpace := by
    intro last
    rw [← hid]
    rfl
  have hkey : (LogicalAction.reply repliedApplication (longMessageId 'b')).kept =
      (LogicalAction.reply repliedApplication (longMessageId 'a')).kept := by
    rw [hkept, hkept]
    decide +kernel
  have hlong : idempotencyKeyMinLength ≤
      (LogicalAction.reply repliedApplication (longMessageId 'a')).kept.length := by
    rw [hkept]
    decide +kernel
  refine h (.reply repliedApplication (longMessageId 'a')) (.reply repliedApplication (longMessageId 'b')) _ ?_
    (idempotencyKey_eq_ok.mpr ⟨rfl, hlong⟩) (idempotencyKey_eq_ok.mpr ⟨?_, ?_⟩)
  · show String.ofList _ ≠ String.ofList _
    rw [hid, hid]
    intro hsame
    exact absurd (String.ofList_injective hsame) (by decide +kernel)
  · rw [hkey]
  · rw [hkey]
    exact hlong

end PersonalOS
