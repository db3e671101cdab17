import Formulary.Proofs.Time.Calendar
import Formulary.Time.Zone
import Mathlib.Data.List.Lex

set_option autoImplicit false

/-!
# Readings of the clock in UTC

A reading tells one second, and each second is told by one reading. Those of valid years tell the seconds of
all instants, in the order of their components.
-/

namespace Formulary.Time

namespace Reading

variable {r s : Reading}

/-- The components from the year down to the second. -/
def fields (r : Reading) : List ℤ :=
  [r.date.year, r.date.month, r.date.day, r.hour, r.minute, r.second]

structure Valid (r : Reading) : Prop where
  year : -262143 ≤ r.date.year ∧ r.date.year ≤ 262142
  date : r.date.Exists
  hour : r.hour < 24
  minute : r.minute < 60
  second : r.second < 60

theorem isValid_iff : r.isValid = true ↔ r.Valid := by
  simp only [isValid, Bool.and_eq_true, decide_eq_true_eq, Date.isValid_iff]
  constructor
  · rintro ⟨⟨⟨⟨year, date⟩, hour⟩, minute⟩, second⟩
    exact ⟨year, date, hour, minute, second⟩
  · rintro ⟨year, date, hour, minute, second⟩
    exact ⟨⟨⟨⟨year, date⟩, hour⟩, minute⟩, second⟩

instance (r : Reading) : Decidable r.Valid :=
  decidable_of_iff (r.isValid = true) isValid_iff

theorem eq_of_fields (same : r.fields = s.fields) : r = s := by
  obtain ⟨⟨year, month, day⟩, hour, minute, second⟩ := r
  obtain ⟨⟨year', month', day'⟩, hour', minute', second'⟩ := s
  simpa [fields, and_assoc] using same

/-- No component is further from zero than the years are. -/
theorem Valid.fields_within (h : r.Valid) : ∀ n ∈ r.fields, -262143 ≤ n ∧ n ≤ 262142 := by
  have year := h.year
  have month := h.date.month.2
  have day := h.date.day.2.trans (monthLength_le _ _)
  have hour := h.hour
  have minute := h.minute
  have second := h.second
  simp only [fields, List.forall_mem_cons, List.not_mem_nil, false_implies, implies_true, and_true]
  omega

theorem ofSeconds_toSeconds (h : r.Valid) : ofSeconds r.toSeconds = r := by
  have hour := h.hour
  have minute := h.minute
  have second := h.second
  have days : r.toSeconds / 86400 = r.date.toDays := by
    unfold toSeconds
    omega
  have rest : (r.toSeconds % 86400).toNat = r.hour * 3600 + r.minute * 60 + r.second := by
    unfold toSeconds
    omega
  have isHour : (r.hour * 3600 + r.minute * 60 + r.second) / 3600 = r.hour := by omega
  have isMinute : (r.hour * 3600 + r.minute * 60 + r.second) / 60 % 60 = r.minute := by omega
  have isSecond : (r.hour * 3600 + r.minute * 60 + r.second) % 60 = r.second := by omega
  simp only [ofSeconds, days, rest, Date.ofDays_toDays h.date, isHour, isMinute, isSecond]

theorem toSeconds_ofSeconds (seconds : ℤ) : (ofSeconds seconds).toSeconds = seconds := by
  simp only [ofSeconds, toSeconds, (Date.toDays_ofDays _).2]
  omega

/-- Readings are counted in the order of their components, the year before the others. -/
theorem toSeconds_lt (h : r.Valid) (h' : s.Valid) (less : r.fields < s.fields) :
    r.toSeconds < s.toSeconds := by
  have hour := h.hour
  have minute := h.minute
  have second := h.second
  simp only [fields, List.cons_lt_cons_iff, Nat.cast_lt, Nat.cast_inj, List.lt_irrefl, and_false,
    or_false] at less
  unfold toSeconds
  by_cases earlier : r.date.toDays < s.date.toDays
  · omega
  · -- Unless the date is earlier it is the same, and the time of day decides.
    have notLess := mt (Date.toDays_lt h.date h'.date) earlier
    have sameDate : r.date = s.date := Date.ext (by omega) (by omega) (by omega)
    rw [sameDate]
    omega

theorem toSeconds_lt_iff (h : r.Valid) (h' : s.Valid) :
    r.toSeconds < s.toSeconds ↔ r.fields < s.fields := by
  refine ⟨fun less => ?_, toSeconds_lt h h'⟩
  rcases lt_trichotomy r.fields s.fields with before | same | after
  · exact before
  · rw [eq_of_fields same] at less
    exact absurd less (lt_irrefl _)
  · exact absurd less (toSeconds_lt h' h after).asymm

/-- The seconds of valid readings are those of the instants. -/
theorem Valid.within (h : r.Valid) :
    firstInstant ≤ r.toSeconds * nanosPerSecond ∧ r.toSeconds * nanosPerSecond ≤ lastInstant := by
  have hour := h.hour
  have minute := h.minute
  have second := h.second
  have first : daysBeforeYear firstYear ≤ daysBeforeYear r.date.year :=
    daysBeforeYear_le_iff.mpr h.year.1
  have last : daysBeforeYear r.date.year + yearLength r.date.year ≤ daysBeforeYear (lastYear + 1) :=
    daysBeforeYear_next_le (Int.lt_add_one_of_le h.year.2)
  have before := Date.daysBefore_lt h.date
  have isFirst : daysBeforeYear firstYear = -95746130 := rfl
  have isLast : daysBeforeYear (lastYear + 1) = 95745399 := rfl
  rw [toSeconds, Date.toDays_eq h.date]
  simp only [firstInstant, lastInstant, nanosPerSecond, epoch]
  omega

end Reading

namespace Instant

variable {t u : Instant} {r s : Reading}

/-- Clocks in UTC show the reading just when the instant comes. -/
def Shows (t : Instant) (r : Reading) : Prop :=
  Reading.ofSeconds (t.nanos / nanosPerSecond) = r ∧ t.nanos % nanosPerSecond = 0

theorem shows_iff (h : r.Valid) : t.Shows r ↔ t.nanos = r.toSeconds * nanosPerSecond := by
  simp only [Shows, nanosPerSecond]
  constructor
  · rintro ⟨rfl, whole⟩
    rw [Reading.toSeconds_ofSeconds]
    omega
  · intro same
    have seconds : t.nanos / 1000000000 = r.toSeconds := by omega
    rw [seconds]
    exact ⟨Reading.ofSeconds_toSeconds h, by omega⟩

/-- Every valid reading is shown. -/
theorem exists_shows (h : r.Valid) : ∃ t : Instant, t.Shows r := by
  obtain ⟨low, high⟩ := h.within
  exact ⟨⟨r.toSeconds * nanosPerSecond, low, high⟩, (shows_iff h).mpr rfl⟩

theorem Shows.lt_iff (shows_r : t.Shows r) (shows_s : u.Shows s) (h : r.Valid) (h' : s.Valid) :
    t.nanos < u.nanos ↔ r.fields < s.fields := by
  rw [(shows_iff h).mp shows_r, (shows_iff h').mp shows_s, ← Reading.toSeconds_lt_iff h h']
  simp only [nanosPerSecond]
  omega

end Instant

namespace Zone

variable {zone : Zone} {r : Reading} {t : Instant}

/-- On clocks that keep UTC the valid readings are those that are shown. -/
theorem instant?_eq_some_iff (utc : zone.KeepsUtc) :
    zone.instant? r = some t ↔ r.Valid ∧ t.Shows r := by
  unfold instant?
  split
  next valid =>
    have h := Reading.isValid_iff.mp valid
    have earliest : zone.earliest? r = Instant.ofNanos? (r.toSeconds * nanosPerSecond) := utc r
    rw [earliest, Instant.ofNanos?_eq_some, Instant.shows_iff h]
    exact eq_comm.trans (iff_and_self.mpr fun _ => h)
  next invalid =>
    simp [mt Reading.isValid_iff.mpr invalid]

end Zone

end Formulary.Time
