import Mathlib.Algebra.Order.Field.Basic
import RakshaQuant.Domain.Doubles
import RakshaQuant.Domain.Errors
import RakshaQuant.Domain.Types
import RakshaQuant.Lib.Dict

/-! Quote validation. A quote is dropped for its price, its move from the previous close or a day
volume that went down. The last accepted quote of each instrument is what a volume is held against,
whatever session that quote was of. Prices are exact rationals here. -/

namespace RakshaQuant

/-- A vendor quote before validation; `aware` where its time has a zone. -/
structure RawQuote where
  instrumentKey : String
  ltp : Double
  volumeCum : ℤ
  exchangeTs : Instant
  aware : Bool
  prevClose : Option Double

structure Seen where
  sessionDate : Day
  volumeCum : ℤ

structure QuoteValidator where
  bandPctFor : String → ℚ
  tolerancePct : ℚ
  seen : Dict String Seen

/-- Whether a finite price, none of them zero or less, is too far from the previous close. -/
def QuoteValidator.outOfBand (v : QuoteValidator) (q : RawQuote) (ltp : ℚ) : Bool :=
  match q.prevClose with
  | some (.finite prev) =>
    0 < prev ∧ v.bandPctFor q.instrumentKey + v.tolerancePct < |ltp / prev - 1| * 100
  | _ => false

/-- Whether the volume is below the last seen of the same session. -/
def QuoteValidator.volumeDecreased (v : QuoteValidator) (q : RawQuote) : Bool :=
  match v.seen.get? q.instrumentKey with
  | some seen => seen.sessionDate = q.exchangeTs.istDate ∧ q.volumeCum < seen.volumeCum
  | none => false

/-- The reason to reject a quote, or none. -/
def QuoteValidator.check (v : QuoteValidator) (q : RawQuote) : Option String :=
  match q.ltp with
  | .finite ltp =>
    if ltp ≤ 0 then some "non_positive_price"
    else if q.volumeCum < 0 then some "negative_volume"
    else if ¬q.aware then some "naive_timestamp"
    else if v.outOfBand q ltp then some "out_of_band"
    else if v.volumeDecreased q then some "volume_decreased"
    else none
  | _ => some "non_finite_price"

/-- Remember an accepted quote. -/
def QuoteValidator.accept (v : QuoteValidator) (q : Quote) : QuoteValidator :=
  { v with seen := v.seen.set q.instrumentKey ⟨q.exchangeTs.istDate, q.volumeCum⟩ }

namespace RawQuote

/-- The previous close of a quote: a positive one or none. An infinite one is refused. -/
def positiveClose (q : RawQuote) : Option (Option ℚ) :=
  match q.prevClose with
  | some (.finite prev) => some (if 0 < prev then some prev else none)
  | some (.infinite false) => none
  | _ => some none

/-- `to_quote`, with the checks of the fields of a quote. -/
def toQuote (q : RawQuote) (receiptTs : Instant) : Except Exc Quote :=
  match q.ltp, q.positiveClose with
  | .finite ltp, some prevClose =>
    if h : 0 < ltp ∧ (∀ p ∈ prevClose, 0 < p) ∧ 0 ≤ q.volumeCum ∧ q.aware ∧
        q.instrumentKey ≠ "" then
      .ok { instrumentKey := q.instrumentKey, ltp, prevClose, volumeCum := q.volumeCum
            exchangeTs := q.exchangeTs, receiptTs, ltp_pos := h.1, prevClose_pos := h.2.1
            volumeCum_nonneg := h.2.2.1 }
    else .error (.validationError "Quote")
  | _, _ => .error (.validationError "Quote")

/-- A quote keeps the key, the volume and the time of what it was made of. -/
theorem toQuote_ok {q : RawQuote} {receiptTs : Instant} {quote : Quote}
    (h : q.toQuote receiptTs = .ok quote) : quote.instrumentKey = q.instrumentKey ∧
      quote.volumeCum = q.volumeCum ∧ quote.exchangeTs = q.exchangeTs := by
  unfold toQuote at h
  split at h
  · split at h
    · cases h
      exact ⟨rfl, rfl, rfl⟩
    · cases h
  · cases h

end RawQuote

/-! ## A feed -/

/-- The validator, and the quotes it has accepted so far. -/
structure QuoteFeed where
  validator : QuoteValidator
  accepted : List Quote

namespace QuoteFeed

/-- A validator that has seen nothing. -/
def start (bandPctFor : String → ℚ) (tolerancePct : ℚ) : QuoteFeed :=
  { validator := { bandPctFor, tolerancePct, seen := .empty }, accepted := [] }

/-- One quote, received at an instant. One that cannot be built raises, and is not accepted. -/
def take (f : QuoteFeed) (raw : RawQuote × Instant) : QuoteFeed :=
  match f.validator.check raw.1 with
  | some _ => f
  | none =>
    match raw.1.toQuote raw.2 with
    | .error _ => f
    | .ok quote =>
      { validator := f.validator.accept quote, accepted := f.accepted ++ [quote] }

def run (f : QuoteFeed) (raws : List (RawQuote × Instant)) : QuoteFeed := raws.foldl take f

/-- The volumes accepted of a session, in order. -/
def volumes (f : QuoteFeed) (key : String) (day : Day) : List ℤ :=
  (f.accepted.filter fun q => q.instrumentKey = key ∧ q.exchangeTs.istDate = day).map
    Quote.volumeCum

/-- The volumes of every session never decrease. -/
def Monotone (f : QuoteFeed) : Prop := ∀ key day, (f.volumes key day).Pairwise (· ≤ ·)

/-- The last quote of an instrument was of another session than `day`. -/
def Left (f : QuoteFeed) (key : String) (day : Day) : Prop :=
  ∃ seen, f.validator.seen.get? key = some seen ∧ seen.sessionDate ≠ day

/-- A quote is accepted in a session that its instrument had left, at no less than the volume that
was last accepted of it. -/
def KeepsUp (f : QuoteFeed) (raw : RawQuote × Instant) : Prop :=
  ∀ quote, f.validator.check raw.1 = none → raw.1.toQuote raw.2 = .ok quote →
    f.Left raw.1.instrumentKey raw.1.exchangeTs.istDate →
    ∀ v ∈ (f.volumes raw.1.instrumentKey raw.1.exchangeTs.istDate).getLast?, v ≤ raw.1.volumeCum

/-! ## What the validator has seen -/

/-- The validator holds the last accepted quote of each instrument. -/
def Tracks (f : QuoteFeed) : Prop :=
  ∀ key, f.validator.seen.get? key = ((f.accepted.filter fun q => q.instrumentKey = key).getLast?).map
    fun q => ⟨q.exchangeTs.istDate, q.volumeCum⟩

variable {f : QuoteFeed} {raw : RawQuote × Instant} {key : String} {day : Day}

theorem tracks_start (bandPctFor : String → ℚ) (tolerancePct : ℚ) :
    (start bandPctFor tolerancePct).Tracks := fun _ => rfl

/-- A quote is taken on, or the feed stays as it was. -/
theorem take_cases (f : QuoteFeed) (raw : RawQuote × Instant) :
    (f.take raw = f ∧ ∀ quote, f.validator.check raw.1 = none → raw.1.toQuote raw.2 ≠ .ok quote) ∨
      ∃ quote, f.validator.check raw.1 = none ∧ raw.1.toQuote raw.2 = .ok quote ∧
        f.take raw = { validator := f.validator.accept quote, accepted := f.accepted ++ [quote] } := by
  unfold take
  cases hcheck : f.validator.check raw.1 with
  | some reason => exact .inl ⟨rfl, fun _ h => by cases h⟩
  | none =>
    cases hquote : raw.1.toQuote raw.2 with
    | error e => exact .inl ⟨rfl, fun _ _ h => by cases h⟩
    | ok quote => exact .inr ⟨quote, rfl, rfl, rfl⟩

theorem Tracks.take (h : f.Tracks) (raw : RawQuote × Instant) : (f.take raw).Tracks := by
  rcases take_cases f raw with ⟨heq, -⟩ | ⟨quote, -, -, heq⟩
  · rwa [heq]
  · rw [heq]
    intro key
    show (f.validator.seen.set _ _).get? key = _
    rw [Dict.get?_set, List.filter_append, List.filter_singleton]
    by_cases hkey : key = quote.instrumentKey
    · simp [hkey]
    · rw [if_neg hkey, h key, decide_eq_false (Ne.symm hkey)]
      simp

/-- What is seen of an instrument is the last volume of its session. -/
theorem Tracks.last (h : f.Tracks) {seen : Seen} (hseen : f.validator.seen.get? key = some seen) :
    (f.volumes key seen.sessionDate).getLast? = some seen.volumeCum := by
  rw [h key, Option.map_eq_some_iff] at hseen
  obtain ⟨q, hlast, rfl⟩ := hseen
  obtain ⟨before, hbefore⟩ := List.getLast?_eq_some_iff.mp hlast
  have hsession : f.accepted.filter (fun q' => decide (q'.instrumentKey = key ∧
      q'.exchangeTs.istDate = q.exchangeTs.istDate)) =
      (before ++ [q]).filter fun q' => q'.exchangeTs.istDate = q.exchangeTs.istDate := by
    rw [← hbefore, List.filter_filter]
    congr 1
    funext q'
    rw [Bool.decide_and, Bool.and_comm]
  unfold volumes
  rw [hsession]
  simp

/-- An instrument that has not been seen has no volumes. -/
theorem Tracks.unseen (h : f.Tracks) (hseen : f.validator.seen.get? key = none) :
    f.volumes key day = [] := by
  rw [h key, Option.map_eq_none_iff, List.getLast?_eq_none_iff, List.filter_eq_nil_iff] at hseen
  unfold volumes
  rw [List.map_eq_nil_iff, List.filter_eq_nil_iff]
  intro q hq
  have := hseen q hq
  grind

theorem pairwise_le_append_singleton {l : List ℤ} {v : ℤ} :
    (l ++ [v]).Pairwise (· ≤ ·) ↔ l.Pairwise (· ≤ ·) ∧ ∀ u ∈ l.getLast?, u ≤ v := by
  rw [List.pairwise_append]
  constructor
  · rintro ⟨hl, -, hle⟩
    exact ⟨hl, fun u hu => hle u (List.mem_of_getLast? hu) v (List.mem_singleton_self v)⟩
  · rintro ⟨hl, hlast⟩
    refine ⟨hl, List.pairwise_singleton _ _, fun a ha w hw => ?_⟩
    rw [List.mem_singleton.mp hw]
    obtain ⟨before, last, rfl⟩ : ∃ before last, l = before ++ [last] :=
      ⟨l.dropLast, l.getLast (List.ne_nil_of_mem ha), (List.dropLast_append_getLast _).symm⟩
    have hv := hlast last (by simp)
    rcases List.mem_append.mp ha with hbefore | hlast'
    · exact le_trans ((List.pairwise_append.mp hl).2.2 a hbefore last (by simp)) hv
    · rwa [List.mem_singleton.mp hlast']

theorem volumes_append (v : QuoteValidator) (accepted : List Quote) (quote : Quote) :
    volumes ⟨v, accepted ++ [quote]⟩ key day = volumes ⟨v, accepted⟩ key day ++
      if quote.instrumentKey = key ∧ quote.exchangeTs.istDate = day then [quote.volumeCum]
      else [] := by
  unfold volumes
  rw [List.filter_append, List.map_append, List.filter_singleton]
  congr 1
  by_cases hof : quote.instrumentKey = key ∧ quote.exchangeTs.istDate = day <;> simp [hof]

/-- Volumes stay in order with one more just where it is not below the last of its session. -/
theorem monotone_append (v w : QuoteValidator) (accepted : List Quote) (quote : Quote) :
    Monotone ⟨v, accepted ++ [quote]⟩ ↔ Monotone ⟨w, accepted⟩ ∧
      ∀ u ∈ (volumes ⟨w, accepted⟩ quote.instrumentKey quote.exchangeTs.istDate).getLast?,
        u ≤ quote.volumeCum := by
  constructor
  · intro h
    have hown := h quote.instrumentKey quote.exchangeTs.istDate
    rw [volumes_append, if_pos ⟨rfl, rfl⟩, pairwise_le_append_singleton] at hown
    refine ⟨fun key day => ?_, hown.2⟩
    have hsession := h key day
    rw [volumes_append] at hsession
    exact (List.pairwise_append.mp hsession).1
  · rintro ⟨h, hlast⟩ key day
    rw [volumes_append]
    by_cases hof : quote.instrumentKey = key ∧ quote.exchangeTs.istDate = day
    · obtain ⟨rfl, rfl⟩ := hof
      rw [if_pos ⟨rfl, rfl⟩, pairwise_le_append_singleton]
      exact ⟨h _ _, hlast⟩
    · rw [if_neg hof, List.append_nil]
      exact h key day

/-- A quote that the check lets through is not below what was seen of its session. -/
theorem le_of_check {v : QuoteValidator} {q : RawQuote} (h : v.check q = none) {seen : Seen}
    (hseen : v.seen.get? q.instrumentKey = some seen)
    (hday : seen.sessionDate = q.exchangeTs.istDate) : seen.volumeCum ≤ q.volumeCum := by
  have hvolume : v.volumeDecreased q = false := by
    unfold QuoteValidator.check at h
    grind
  rw [QuoteValidator.volumeDecreased, hseen] at hvolume
  have := of_decide_eq_false hvolume
  grind

/-- A quote leaves the volumes in order just where it keeps up with the session it rejoins. -/
theorem Tracks.take_monotone_iff (h : f.Tracks) :
    (f.take raw).Monotone ↔ f.Monotone ∧ f.KeepsUp raw := by
  rcases take_cases f raw with ⟨heq, hno⟩ | ⟨quote, hcheck, hquote, heq⟩
  · rw [heq]
    exact (and_iff_left fun quote hcheck hquote => absurd hquote (hno quote hcheck)).symm
  · obtain ⟨hkey, hvolume, hts⟩ := RawQuote.toQuote_ok hquote
    rw [heq, monotone_append _ f.validator, hkey, hvolume, hts]
    refine and_congr_right fun _ => ?_
    constructor
    · exact fun hlast quote' _ _ _ => hlast
    · intro hkeeps u hu
      cases hseen : f.validator.seen.get? raw.1.instrumentKey with
      | none =>
        have hnone : volumes ⟨f.validator, f.accepted⟩ raw.1.instrumentKey
            raw.1.exchangeTs.istDate = [] := h.unseen hseen
        rw [hnone] at hu
        cases hu
      | some seen =>
        by_cases hday : seen.sessionDate = raw.1.exchangeTs.istDate
        · have hlast := h.last hseen
          rw [hday] at hlast
          obtain rfl : seen.volumeCum = u := Option.some.inj (hlast.symm.trans hu)
          exact le_of_check hcheck hseen hday
        · exact hkeeps quote hcheck hquote ⟨seen, hseen, hday⟩ u hu

theorem Tracks.run_monotone_iff (h : f.Tracks) (raws : List (RawQuote × Instant)) :
    (f.run raws).Monotone ↔ f.Monotone ∧
      ∀ before raw after, raws = before ++ raw :: after → (f.run before).KeepsUp raw := by
  induction raws generalizing f with
  | nil => simp [run]
  | cons raw rest ih =>
    show ((f.take raw).run rest).Monotone ↔ _
    rw [ih (h.take raw), h.take_monotone_iff, and_assoc]
    refine and_congr_right fun _ => ?_
    constructor
    · rintro ⟨hfirst, hlater⟩ before raw' after heq
      rcases List.cons_eq_append_iff.mp heq with ⟨rfl, hrest⟩ | ⟨before', rfl, hrest⟩
      · obtain ⟨rfl, -⟩ := List.cons.inj hrest
        exact hfirst
      · exact hlater before' raw' after hrest
    · intro hall
      exact ⟨hall [] raw rest rfl, fun before raw' after heq =>
        hall (raw :: before) raw' after (by rw [heq]; rfl)⟩

end QuoteFeed

/-- **Accepted volume is monotone exactly where no session is rejoined from behind.** Only the last
quote of an instrument is held, so a session that comes back after another is not checked. -/
theorem QuoteFeed.accepted_volumes_monotone_iff (bandPctFor : String → ℚ) (tolerancePct : ℚ)
    (raws : List (RawQuote × Instant)) :
    ((start bandPctFor tolerancePct).run raws).Monotone ↔
      ∀ before raw after, raws = before ++ raw :: after →
        ((start bandPctFor tolerancePct).run before).KeepsUp raw := by
  rw [(tracks_start bandPctFor tolerancePct).run_monotone_iff]
  exact and_iff_right fun _ _ => .nil

namespace LateQuote

/-- A quote of one share price, at an instant, with the volume so far. -/
def raw (exchangeTs : Instant) (volumeCum : ℤ) : RawQuote × Instant :=
  ({ instrumentKey := "NSE:EQ:INFY", ltp := .finite 100, volumeCum, exchangeTs, aware := true
     prevClose := none }, exchangeTs)

/-- Between two quotes of one session comes one of the next. -/
def raws : List (RawQuote × Instant) := [raw 0 100, raw 86400000000 5, raw 0 50]

def feed : QuoteFeed := (QuoteFeed.start (fun _ => 20) 2).run raws

end LateQuote

/-- A late quote of the earlier session is accepted below the volume already accepted of it. -/
theorem late_quote_decreases :
    ¬∀ (bandPctFor : String → ℚ) (tolerancePct : ℚ) (raws : List (RawQuote × Instant)),
      ((QuoteFeed.start bandPctFor tolerancePct).run raws).Monotone := by
  intro h
  have hvolumes : LateQuote.feed.volumes "NSE:EQ:INFY" 0 = [100, 50] := by decide +kernel
  have hmonotone : LateQuote.feed.Monotone := h (fun _ => 20) 2 LateQuote.raws
  have hsession := hmonotone "NSE:EQ:INFY" 0
  rw [hvolumes] at hsession
  exact absurd hsession (by decide)

end RakshaQuant
