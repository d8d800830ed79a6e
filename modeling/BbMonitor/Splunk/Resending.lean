import BbMonitor.Splunk.Batches

/-!
# A batch that is sent again

Two runs over one body, each with a clock of its own.  The time of an event is read, but
what stays in its line is the clock (`ownTime_eq_timestampNs_iff`), which then enters the
id.  So the lines of the runs agree, and have the times of their events, only where both
clocks happen to show these times.
-/

namespace BbMonitor.Splunk

open Json
open DdLogProxy (LogLine)

/-- One digit or more, and a fraction or none. -/
def Decimal (t : Bytes) : Prop :=
  ∃ whole fraction : Bytes, (t = whole ∨ t = whole ++ bytes "." ++ fraction) ∧
    whole ≠ [] ∧ ∀ c ∈ whole ++ fraction, 0x30 ≤ c ∧ c ≤ 0x39

/-- The nanoseconds of a time that is a string, as far as `stod` reads it. -/
def ownTime (conversions : Conversions) (e : Event) : Option Int64 :=
  (findString e.1 "time").bind fun t =>
    (conversions.stod (cString t)).map fun tsD => conversions.microseconds tsD * 1000

/-- The lines have the times of the events. -/
def InTime (conversions : Conversions) (evs : List Event) (lines : List LogLine) : Prop :=
  List.Forall₂ (fun e ll => ownTime conversions e = some ll.timestampNs) evs lines

variable {md5Uuid : Bytes → Bytes} {conversions : Conversions}

/-! ## One event -/

section

variable {e : Event} {ts : Int64}

theorem findMember_of_ownTime (htime : ownTime conversions e = some ts) :
    (findMember e.1 "time").isSome := by
  obtain ⟨t, hfound, -⟩ := Option.bind_eq_some_iff.mp htime
  obtain ⟨v, hv, -⟩ := Option.bind_eq_some_iff.mp hfound
  rw [hv]
  rfl

theorem readable_of_ownTime (htime : ownTime conversions e = some ts) :
    Readable conversions e := by
  obtain ⟨t, hfound, hread⟩ := Option.bind_eq_some_iff.mp htime
  intro t' hfound'
  have heq : t' = t := Option.some.inj (hfound'.symm.trans hfound)
  obtain ⟨tsD, hstod, -⟩ := Option.map_eq_some_iff.mp hread
  rw [heq, hstod]
  rfl

/-- A line that has its event's time has it from the clock. -/
theorem ownTime_eq_timestampNs_iff (now : Int64) :
    ownTime conversions e = some (eventLine md5Uuid now e).timestampNs ↔
      ownTime conversions e = some now := by
  cases htime : ownTime conversions e with
  | none => exact iff_of_false (Option.some_ne_none _).symm (Option.some_ne_none _).symm
  | some ts =>
      have hclock : (eventLine md5Uuid now e).timestampNs = now :=
        if_pos (findMember_of_ownTime htime)
      rw [hclock]

end

/-! ## One run -/

section

variable {evs : List Event}

/-- At each of the events, the clock shows its time. -/
def ClockInTime (conversions : Conversions) (clock : ℕ → Int64) (evs : List Event) : Prop :=
  ∀ i (hi : i < evs.length), ownTime conversions evs[i] = some (clock i)

theorem inTime_mapIdx_iff (clock : ℕ → Int64) :
    InTime conversions evs (evs.mapIdx fun i e => eventLine md5Uuid (clock i) e) ↔
      ClockInTime conversions clock evs := by
  rw [InTime, Numbered.forall₂_mapIdx_iff]
  exact forall₂_congr fun i _ => ownTime_eq_timestampNs_iff (clock i)

theorem readable_of_clockInTime {clock : ℕ → Int64}
    (hclock : ClockInTime conversions clock evs) : ∀ e ∈ evs, Readable conversions e := by
  rw [List.forall_mem_iff_forall_getElem]
  exact fun i hi => readable_of_ownTime (hclock i hi)

end

section

variable {parse : Bytes → Option (Value × Bytes)} {body : Bytes} {docs : List Value}

/-- A run gives the times of the events exactly when its clock shows them. -/
theorem parse_in_time_iff (md5Uuid : Bytes → Bytes) (hconsumes : Consumes parse)
    (hdocs : Documents parse (cString body) docs) (clock : ℕ → Int64) (result : List LogLine) :
    parseSplunkEvent md5Uuid conversions parse clock body = .ok result ∧
        InTime conversions (events docs) result ↔
      ((events docs).mapIdx fun i e => eventLine md5Uuid (clock i) e) = result ∧
        ClockInTime conversions clock (events docs) := by
  constructor
  · rintro ⟨hresult, htime⟩
    by_cases hreadable : ∀ e ∈ events docs, Readable conversions e
    · rw [parse_of_readable hconsumes hdocs hreadable, Except.ok.injEq] at hresult
      rw [← hresult, inTime_mapIdx_iff] at htime
      exact ⟨hresult, htime⟩
    · rw [parse_of_not_readable hconsumes hdocs hreadable] at hresult
      cases hresult
  · rintro ⟨rfl, hclock⟩
    exact ⟨parse_of_readable hconsumes hdocs (readable_of_clockInTime hclock),
      (inTime_mapIdx_iff clock).mpr hclock⟩

end

/-- Two clocks that both show the times of the events agree on them. -/
theorem mapIdx_eventLine_congr (md5Uuid : Bytes → Bytes) {evs : List Event}
    {clock clock' : ℕ → Int64} (hclock : ClockInTime conversions clock evs)
    (hclock' : ClockInTime conversions clock' evs) :
    (evs.mapIdx fun i e => eventLine md5Uuid (clock i) e) =
      evs.mapIdx fun i e => eventLine md5Uuid (clock' i) e := by
  rw [List.mapIdx_eq_mapIdx_iff]
  intro i hi
  have heq : clock i = clock' i :=
    Option.some.inj ((hclock i hi).symm.trans (hclock' i hi))
  rw [heq]

/-- Two runs over a body return the same lines, with the times of the events, exactly
when both clocks show these times. -/
theorem resent_iff (md5Uuid : Bytes → Bytes) (conversions : Conversions)
    (parse : Bytes → Option (Value × Bytes)) (hconsumes : Consumes parse) (body : Bytes)
    (docs : List Value) (hdocs : Documents parse (cString body) docs) (clock clock' : ℕ → Int64) :
    (∃ result, parseSplunkEvent md5Uuid conversions parse clock body = .ok result ∧
        parseSplunkEvent md5Uuid conversions parse clock' body = .ok result ∧
        InTime conversions (events docs) result) ↔
      ClockInTime conversions clock (events docs) ∧
        ClockInTime conversions clock' (events docs) := by
  constructor
  · rintro ⟨result, hresult, hresult', htime⟩
    exact ⟨((parse_in_time_iff md5Uuid hconsumes hdocs clock result).mp ⟨hresult, htime⟩).2,
      ((parse_in_time_iff md5Uuid hconsumes hdocs clock' result).mp ⟨hresult', htime⟩).2⟩
  · rintro ⟨hclock, hclock'⟩
    obtain ⟨hresult, htime⟩ :=
      (parse_in_time_iff md5Uuid hconsumes hdocs clock _).mpr ⟨rfl, hclock⟩
    have hsame := mapIdx_eventLine_congr md5Uuid hclock' hclock
    obtain ⟨hresult', -⟩ :=
      (parse_in_time_iff md5Uuid hconsumes hdocs clock' _).mpr ⟨hsame, hclock'⟩
    exact ⟨_, hresult, hresult', htime⟩

theorem timed_resent_iff :
    (∃ result,
        parseSplunkEvent DdLogProxy.uuidOfMd5 fewConversions parseFew (fun _ => 1) timedText =
          .ok result ∧
        parseSplunkEvent DdLogProxy.uuidOfMd5 fewConversions parseFew (fun _ => 2) timedText =
          .ok result ∧
        InTime fewConversions (events [.object timedEvent.1]) result) ↔
      ClockInTime fewConversions (fun _ => 1) (events [.object timedEvent.1]) ∧
        ClockInTime fewConversions (fun _ => 2) (events [.object timedEvent.1]) :=
  resent_iff DdLogProxy.uuidOfMd5 fewConversions parseFew parseFew_consumes _ _ documents_timed
    (fun _ => 1) (fun _ => 2)

theorem events_timed : events [.object timedEvent.1] = [timedEvent] := by
  simp [events, event?, timedEvent, Value.object?, findObject, findMember]

theorem decimal_of_timed :
    ∀ e ∈ events [.object timedEvent.1], ∃ t, findString e.1 "time" = some t ∧ Decimal t := by
  rw [events_timed, List.forall_mem_singleton]
  have hfound : findString timedEvent.1 "time" = some (bytes "1569223641") := rfl
  refine ⟨_, hfound, bytes "1569223641", [], Or.inl rfl, ?_, ?_⟩
  · decide
  · decide +kernel

/-- A nanosecond later, the line of the event is another one. -/
theorem timed_not_resent :
    ¬ ∀ (md5Uuid : Bytes → Bytes) (conversions : Conversions)
      (parse : Bytes → Option (Value × Bytes)), Consumes parse →
        ∀ (body : Bytes) (docs : List Value), Documents parse (cString body) docs →
          (∀ e ∈ events docs, ∃ t, findString e.1 "time" = some t ∧ Decimal t) →
            ∀ clock clock' : ℕ → Int64,
              ∃ result, parseSplunkEvent md5Uuid conversions parse clock body = .ok result ∧
                parseSplunkEvent md5Uuid conversions parse clock' body = .ok result ∧
                InTime conversions (events docs) result := by
  intro hall
  obtain ⟨result, hresult, -, htime⟩ := hall DdLogProxy.uuidOfMd5 fewConversions parseFew
    parseFew_consumes _ _ documents_timed decimal_of_timed (fun _ => 1) (fun _ => 2)
  obtain ⟨-, hclock⟩ := (parse_in_time_iff _ parseFew_consumes documents_timed _ _).mp
    ⟨hresult, htime⟩
  rw [events_timed] at hclock
  have hown : ownTime fewConversions timedEvent = some 1 := hclock 0 Nat.zero_lt_one
  revert hown
  decide

end BbMonitor.Splunk
