import RakshaQuant.DecisionModels.Cascade
import RakshaQuant.Lib.Softmax

/-! Calibration of answers: the probabilities are rescaled by the temperature fitted for the model
and the question, over the reals. The order of the labels stays, so the answer does; only how sure
it claims to be changes. -/

namespace RakshaQuant

namespace DecisionModels

namespace Calibration

/-- `EPS`. -/
noncomputable def eps : ℝ := 1 / 1000000

/-- `np.clip(p, EPS, 1.0)`. -/
noncomputable def clip (p : ℝ) : ℝ := min (max p eps) 1

/-- A row of `_as_matrix`. -/
noncomputable def normalise (row : List ℝ) : List ℝ :=
  (row.map clip).map (· / (row.map clip).sum)

/-- A row of `apply_temperature`. -/
noncomputable def rescale (row : List ℝ) (temperature : ℝ) : List ℝ :=
  Softmax.softmax (((normalise row).map Real.log).map (· / temperature))

noncomputable def applyTemperature (probs : List (List ℝ)) (temperature : ℝ) : List (List ℝ) :=
  probs.map (rescale · temperature)

/-! ## Answers -/

inductive Value
  | flag (value : Bool)
  | label (value : String)
  | level (value : ℝ)

/-- `str(value)`, with the text of a number. -/
def Value.text (ofLevel : ℝ → String) : Value → String
  | flag value => if value then "True" else "False"
  | label value => value
  | level value => ofLevel value

/-- An answer with exact numbers. -/
structure ExactAnswer where
  type : QuestionType
  value : Value
  probabilities : Dict String ℝ
  confidence : ℝ
  model : String
  calibrated : Bool

/-- `key`. -/
def mapKey (model task question : String) : String := model ++ "|" ++ task ++ "." ++ question

/-- `CalibrationMap`: the fitted temperatures. -/
structure CalibrationMap where
  temperatures : Dict String ℝ

/-- The probabilities of an answer, rescaled. -/
noncomputable def scaled (probabilities : Dict String ℝ) (temperature : ℝ) : Dict String ℝ :=
  .ofList (probabilities.keys.zip
    ((applyTemperature [probabilities.values] temperature).headD []))

/-- The expected level: the sum of `i * probs[k]` over the enumerated labels. -/
noncomputable def expectedLevel (probs : Dict String ℝ) (labels : List String) : ℝ :=
  (labels.zipIdx.map fun e => e.2 * (probs.get? e.1).getD 0).sum

noncomputable def CalibrationMap.apply (m : CalibrationMap) (ofLevel : ℝ → String)
    (task question : String) (answer : ExactAnswer) : ExactAnswer :=
  match m.temperatures.get? (mapKey answer.model task question) with
  | none => answer
  | some temperature =>
    if answer.probabilities.keys = [] then answer
    else
      let probs := scaled answer.probabilities temperature
      match answer.type with
      | .noul =>
        let pTrue := (probs.get? "true").getD 0
        let value := decide (1 / 2 ≤ pTrue)
        { answer with
          value := .flag value, confidence := if value then pTrue else 1 - pTrue
          probabilities := probs, calibrated := true }
      | .choice =>
        { answer with
          confidence := (probs.get? (answer.value.text ofLevel)).getD (Softmax.top probs.values)
          probabilities := probs, calibrated := true }
      | .score =>
        { answer with
          value := .level (expectedLevel probs answer.probabilities.keys)
          confidence := Softmax.top probs.values, probabilities := probs, calibrated := true }

/-! ## Rescaling a row -/

variable {row : List ℝ} {p q T : ℝ}

theorem clip_pos (p : ℝ) : 0 < clip p := by
  have heps : 0 < eps := by norm_num [eps]
  exact lt_min (lt_max_of_lt_right heps) one_pos

theorem clip_mono (h : p ≤ q) : clip p ≤ clip q := min_le_min_right 1 (max_le_max_right eps h)

theorem clip_of_mem (hp : eps ≤ p) (hp' : p ≤ 1) : clip p = p := by
  rw [clip, max_eq_left hp, min_eq_left hp']

/-- What a row is divided by. -/
noncomputable def total (row : List ℝ) : ℝ := (row.map clip).sum

theorem total_pos (hne : row ≠ []) : 0 < total row := by
  obtain ⟨a, rest, rfl⟩ := List.exists_cons_of_ne_nil hne
  rw [total, List.map_cons, List.sum_cons]
  have hrest : 0 ≤ (rest.map clip).sum := List.sum_nonneg fun x hx => by
    obtain ⟨p, -, rfl⟩ := List.mem_map.mp hx
    exact (clip_pos p).le
  exact add_pos_of_pos_of_nonneg (clip_pos a) hrest

/-- The logit of a probability of a row. -/
noncomputable def logit (row : List ℝ) (T p : ℝ) : ℝ := Real.log (clip p / total row) / T

theorem logits_eq (row : List ℝ) (T : ℝ) :
    ((normalise row).map Real.log).map (· / T) = row.map (logit row T) := by
  rw [normalise, List.map_map, List.map_map, List.map_map]
  rfl

theorem logit_le_iff (hne : row ≠ []) (hT : 0 < T) :
    logit row T p ≤ logit row T q ↔ clip p ≤ clip q := by
  have htotal := total_pos hne
  rw [logit, logit, div_le_div_iff_of_pos_right hT,
    Real.log_le_log_iff (div_pos (clip_pos p) htotal) (div_pos (clip_pos q) htotal),
    div_le_div_iff_of_pos_right htotal]

/-- What a probability of a row becomes. -/
noncomputable def prob (row : List ℝ) (T p : ℝ) : ℝ :=
  Real.exp (logit row T p - Softmax.top (row.map (logit row T))) /
    Softmax.weight (row.map (logit row T))

theorem rescale_eq (row : List ℝ) (T : ℝ) : rescale row T = row.map (prob row T) := by
  rw [rescale, logits_eq, Softmax.softmax, List.map_map]
  rfl

/-- The order of the clipped probabilities stays. -/
theorem prob_le_iff (hne : row ≠ []) (hT : 0 < T) :
    prob row T p ≤ prob row T q ↔ clip p ≤ clip q := by
  have hmap : row.map (logit row T) ≠ [] := by simpa using hne
  rw [prob, prob, Softmax.exp_div_weight_le_iff hmap, logit_le_iff hne hT]

theorem sum_rescale (hne : row ≠ []) (T : ℝ) : (rescale row T).sum = 1 := by
  rw [rescale, logits_eq]
  exact Softmax.sum_softmax (by simpa using hne)

theorem top_rescale_anti {T₁ T₂ : ℝ} (hne : row ≠ []) (hpos : 0 < T₁) (hle : T₁ ≤ T₂) :
    Softmax.top (rescale row T₂) ≤ Softmax.top (rescale row T₁) := by
  have hlogs : (normalise row).map Real.log ≠ [] := by simpa [normalise] using hne
  exact Softmax.top_softmax_anti hlogs hpos hle

theorem rescale_one (hne : row ≠ []) : rescale row 1 = normalise row := by
  have hpos : ∀ x ∈ normalise row, 0 < x := by
    intro x hx
    obtain ⟨y, hy, rfl⟩ := List.mem_map.mp hx
    obtain ⟨p, -, rfl⟩ := List.mem_map.mp hy
    exact div_pos (clip_pos p) (total_pos hne)
  have hsum : (normalise row).sum = 1 := by
    rw [normalise, Softmax.sum_map_div _ fun x => x, List.map_id']
    exact div_self (total_pos hne).ne'
  have hone : (((normalise row).map Real.log).map (· / (1 : ℝ))) =
      (normalise row).map Real.log := by
    simp
  rw [rescale, hone, Softmax.softmax_log hpos hsum]

/-- No probability of a normalised row is clipped by more than the row is divided by. -/
theorem top_normalise_le (hne : row ≠ []) (hpos : ∀ p ∈ row, 0 ≤ p) (hsum : row.sum = 1) :
    Softmax.top (normalise row) ≤ Softmax.top row := by
  have hone : ∀ p ∈ row, p ≤ 1 := fun p hp => hsum ▸ List.single_le_sum hpos p hp
  have hraise : ∀ p ∈ row, p ≤ clip p := fun p hp => le_min (le_max_left p eps) (hone p hp)
  have hbound : ∀ p ∈ row, clip p ≤ Softmax.top row * total row := by
    intro p hp
    rcases le_total eps (Softmax.top row) with hlarge | hsmall
    · -- the largest probability is not clipped, and the row sums to at least one
      have htotal : 1 ≤ total row := by
        rw [total, ← hsum]
        conv_lhs => rw [← List.map_id' row]
        exact List.sum_le_sum hraise
      have htop : clip (Softmax.top row) = Softmax.top row :=
        clip_of_mem hlarge (hone _ (Softmax.top_mem hne))
      calc clip p ≤ clip (Softmax.top row) := clip_mono (Softmax.le_top hp)
        _ = Softmax.top row * 1 := by rw [htop, mul_one]
        _ ≤ Softmax.top row * total row :=
          mul_le_mul_of_nonneg_left htotal (hpos _ (Softmax.top_mem hne))
    · -- every probability is clipped to the same
      have hclip : ∀ p ∈ row, clip p = eps := fun p hp => by
        have heps : eps ≤ 1 := by norm_num [eps]
        rw [clip, max_eq_right ((Softmax.le_top hp).trans hsmall), min_eq_left heps]
      have htotal : total row = row.length * eps := by
        rw [total, List.map_congr_left hclip, List.map_const', List.sum_replicate, nsmul_eq_mul]
      have hcount : 1 ≤ row.length * Softmax.top row := by
        have hle := List.sum_le_card_nsmul row _ fun x hx => Softmax.le_top hx
        rwa [hsum, nsmul_eq_mul] at hle
      have heps : 0 ≤ eps := by norm_num [eps]
      calc clip p = 1 * eps := by rw [hclip p hp, one_mul]
        _ ≤ row.length * Softmax.top row * eps := mul_le_mul_of_nonneg_right hcount heps
        _ = Softmax.top row * total row := by rw [htotal]; ring
  refine Softmax.top_le (by simpa [normalise] using hne) fun x hx => ?_
  obtain ⟨y, hy, rfl⟩ := List.mem_map.mp hx
  obtain ⟨p, hp, rfl⟩ := List.mem_map.mp hy
  exact (div_le_iff₀ (total_pos hne)).mpr (hbound p hp)

/-! ## Rescaling an answer -/

variable {d : Dict String ℝ} {label : String}

theorem get?_scaled (d : Dict String ℝ) (T : ℝ) (label : String) :
    (scaled d T).get? label = (d.get? label).map (prob d.values T) := by
  have hzip : d.keys.zip (d.values.map (prob d.values T)) =
      d.entries.map fun e => (e.1, prob d.values T e.2) := by
    rw [Dict.keys, Dict.values, List.map_map, List.zip_map']
    rfl
  have hrow : (applyTemperature [d.values] T).headD [] = d.values.map (prob d.values T) :=
    rescale_eq d.values T
  rw [scaled, hrow, hzip]
  exact Dict.get?_ofList_map d (prob d.values T) label

/-- No label has a larger probability. -/
def MostLikely (probabilities : Dict String ℝ) (label : String) : Prop :=
  ∃ p, probabilities.get? label = some p ∧
    ∀ other q, probabilities.get? other = some q → q ≤ p

theorem values_ne_nil {p : ℝ} (h : d.get? label = some p) : d.values ≠ [] :=
  List.ne_nil_of_mem (d.mem_values_iff.mpr ⟨label, h⟩)

/-- The most likely labels stay. -/
theorem MostLikely.scaled (hT : 0 < T) (h : MostLikely d label) :
    MostLikely (Calibration.scaled d T) label := by
  obtain ⟨p, hp, hmax⟩ := h
  refine ⟨prob d.values T p, by rw [get?_scaled, hp, Option.map_some], fun other q hq => ?_⟩
  rw [get?_scaled, Option.map_eq_some_iff] at hq
  obtain ⟨r, hr, rfl⟩ := hq
  exact (prob_le_iff (values_ne_nil hp) hT).mpr (clip_mono (hmax other r hr))

/-- And no other label joins them, where the clipping leaves the largest probability alone. -/
theorem MostLikely.of_scaled (hT : 0 < T) (hone : ∀ other q, d.get? other = some q → q ≤ 1)
    (hlarge : ∃ other q, d.get? other = some q ∧ eps < q)
    (h : MostLikely (Calibration.scaled d T) label) : MostLikely d label := by
  obtain ⟨y, hy, hmax⟩ := h
  rw [get?_scaled, Option.map_eq_some_iff] at hy
  obtain ⟨p, hp, rfl⟩ := hy
  have hclip : ∀ other q, d.get? other = some q → clip q ≤ clip p := by
    intro other q hq
    have hle := hmax other _ (by rw [get?_scaled, hq, Option.map_some])
    exact (prob_le_iff (values_ne_nil hp) hT).mp hle
  have hwithin : ∀ q, q ≤ 1 → clip q = max q eps := fun q hq =>
    min_eq_left (max_le hq (by norm_num [eps]))
  refine ⟨p, hp, fun other q hq => ?_⟩
  have hpeps : eps < p := by
    obtain ⟨largest, r, hr, heps⟩ := hlarge
    have hle := hclip largest r hr
    rw [hwithin r (hone _ _ hr), hwithin p (hone _ _ hp)] at hle
    exact (lt_max_iff.mp (lt_of_lt_of_le (lt_max_of_lt_left heps) hle)).resolve_right (lt_irrefl _)
  have hle := hclip other q hq
  rw [hwithin q (hone _ _ hq), hwithin p (hone _ _ hp), max_eq_left hpeps.le] at hle
  exact (le_max_left q eps).trans hle

/-- The largest probability of a normalised answer is not raised. -/
theorem top_scaled_le (hT : 1 ≤ T) (hne : d.values ≠ []) (hpos : ∀ p ∈ d.values, 0 ≤ p)
    (hsum : d.values.sum = 1) : Softmax.top (scaled d T).values ≤ Softmax.top d.values := by
  have hvalues : (scaled d T).values ≠ [] := by
    obtain ⟨label, hlabel⟩ := d.mem_values_iff.mp (Softmax.top_mem hne)
    have hget : (scaled d T).get? label = some (prob d.values T (Softmax.top d.values)) := by
      rw [get?_scaled, hlabel, Option.map_some]
    exact values_ne_nil hget
  refine Softmax.top_le hvalues fun y hy => ?_
  obtain ⟨label, hlabel⟩ := (scaled d T).mem_values_iff.mp hy
  rw [get?_scaled, Option.map_eq_some_iff] at hlabel
  obtain ⟨p, hp, rfl⟩ := hlabel
  have hmem : prob d.values T p ∈ rescale d.values T := by
    rw [rescale_eq]
    exact List.mem_map_of_mem (d.mem_values_iff.mpr ⟨label, hp⟩)
  calc prob d.values T p ≤ Softmax.top (rescale d.values T) := Softmax.le_top hmem
    _ ≤ Softmax.top (rescale d.values 1) := top_rescale_anti hne one_pos hT
    _ = Softmax.top (normalise d.values) := by rw [rescale_one hne]
    _ ≤ Softmax.top d.values := top_normalise_le hne hpos hsum

/-- The probabilities are over false and true, sum to 1 and agree with the value. -/
structure ExactAnswer.Binary (answer : ExactAnswer) : Prop where
  labels : answer.probabilities.keys.Perm ["false", "true"]
  sum : answer.probabilities.values.sum = 1
  agrees : answer.value =
    .flag (decide (1 / 2 ≤ (answer.probabilities.get? "true").getD 0))

/-- Of two probabilities that sum to 1, the larger stays above one half. -/
theorem half_le_scaled_iff (hT : 0 < T) (hlabels : d.keys.Perm ["false", "true"])
    (hsum : d.values.sum = 1) : 1 / 2 ≤ ((scaled d T).get? "true").getD 0 ↔
      1 / 2 ≤ (d.get? "true").getD 0 := by
  obtain ⟨t, ht⟩ := d.mem_keys_iff.mp (hlabels.mem_iff.mpr (by simp : "true" ∈ ["false", "true"]))
  obtain ⟨f, hf⟩ := d.mem_keys_iff.mp (hlabels.mem_iff.mpr (by simp : "false" ∈ ["false", "true"]))
  have hvalues : d.values.Perm [f, t] := by
    have hkeys : d.values = d.keys.map fun k => (d.get? k).getD 0 := by
      rw [Dict.values, Dict.keys, List.map_map]
      refine List.map_congr_left fun e he => ?_
      rw [Function.comp_apply, d.mem_entries_iff.mp he, Option.getD_some]
    have hperm := hlabels.map fun k => (d.get? k).getD 0
    rw [← hkeys] at hperm
    simpa [hf, ht] using hperm
  -- both pairs sum to one, so at least a half means at least the other answer's share
  have hft : f + t = 1 := by
    have := hvalues.sum_eq
    simpa [hsum] using this.symm
  have hne : d.values ≠ [] := values_ne_nil ht
  have hprobs : prob d.values T f + prob d.values T t = 1 := by
    have hscaled := sum_rescale hne T
    rw [rescale_eq, (hvalues.map _).sum_eq] at hscaled
    simpa using hscaled
  -- of two shares that sum to one, clipping cannot make the larger one the smaller
  have hclip : clip f ≤ clip t ↔ f ≤ t := by
    refine ⟨fun hle => ?_, clip_mono⟩
    by_contra hlt
    have heps : eps < 1 / 2 := by norm_num [eps]
    have hsmall : clip t < 1 / 2 := lt_of_le_of_lt (min_le_left _ _) (max_lt (by linarith) heps)
    have hlarge : 1 / 2 < clip f := lt_min (lt_max_of_lt_left (by linarith)) (by norm_num)
    linarith
  rw [get?_scaled, ht, Option.map_some, Option.getD_some, Option.getD_some]
  have horder : prob d.values T f ≤ prob d.values T t ↔ f ≤ t := (prob_le_iff hne hT).trans hclip
  constructor
  · intro h
    have := horder.mp (by linarith)
    linarith
  · intro h
    have := horder.mpr (by linarith)
    linarith

/-- What `apply` makes of an answer that has a temperature. -/
theorem apply_cases (m : CalibrationMap) (ofLevel : ℝ → String) (task question : String)
    (answer : ExactAnswer) : m.apply ofLevel task question answer = answer ∨
      ∃ T, m.temperatures.get? (mapKey answer.model task question) = some T ∧
        answer.probabilities.keys ≠ [] ∧
        (m.apply ofLevel task question answer).probabilities = scaled answer.probabilities T ∧
        (answer.type = .choice → (m.apply ofLevel task question answer).value = answer.value) ∧
        (answer.type = .noul → (m.apply ofLevel task question answer).value =
          .flag (decide (1 / 2 ≤ ((scaled answer.probabilities T).get? "true").getD 0))) := by
  unfold CalibrationMap.apply
  cases hget : m.temperatures.get? (mapKey answer.model task question) with
  | none => exact .inl rfl
  | some T =>
    by_cases hempty : answer.probabilities.keys = []
    · exact .inl (if_pos hempty)
    · refine .inr ⟨T, rfl, hempty, ?_⟩
      simp only [if_neg hempty]
      cases answer.type with
      | noul =>
        refine ⟨rfl, ?_, fun _ => rfl⟩
        intro h
        cases h
      | choice =>
        refine ⟨rfl, fun _ => rfl, ?_⟩
        intro h
        cases h
      | score =>
        refine ⟨rfl, ?_, ?_⟩ <;>
        · intro h
          cases h

/-- **Calibration keeps the answer.** A rescaled row is a distribution in the order of the row, and
a higher temperature never raises its largest probability. So `apply` with positive temperatures
keeps the value of every yes-or-no answer that agrees with its probabilities and of every choice,
and the most likely labels of every answer, exactly where the clipping leaves the largest
probability alone; with temperatures from 1 on no normalised answer gets surer. -/
theorem calibration_keeps_answer :
    (∀ (row : List ℝ) (T : ℝ), 2 ≤ row.length → (∀ p ∈ row, eps ≤ p ∧ p ≤ 1) → 0 < T →
      (rescale row T).length = row.length ∧ (∀ q ∈ rescale row T, 0 ≤ q ∧ q ≤ 1) ∧
      (rescale row T).sum = 1 ∧
      ∀ (i j : ℕ) (p q p' q' : ℝ), row[i]? = some p → row[j]? = some q →
        (rescale row T)[i]? = some p' → (rescale row T)[j]? = some q' → (p' ≤ q' ↔ p ≤ q)) ∧
    (∀ (row : List ℝ) (T₁ T₂ : ℝ), 2 ≤ row.length → (∀ p ∈ row, eps ≤ p ∧ p ≤ 1) → 0 < T₁ →
      T₁ ≤ T₂ → Softmax.top (rescale row T₂) ≤ Softmax.top (rescale row T₁)) ∧
    ∀ (m : CalibrationMap) (ofLevel : ℝ → String) (task question : String) (answer : ExactAnswer),
      (∀ T, m.temperatures.get? (mapKey answer.model task question) = some T → 0 < T) →
      (answer.type = .noul → answer.Binary →
        (m.apply ofLevel task question answer).value = answer.value) ∧
      (answer.type = .choice → (m.apply ofLevel task question answer).value = answer.value) ∧
      (∀ label, MostLikely answer.probabilities label →
        MostLikely (m.apply ofLevel task question answer).probabilities label) ∧
      ((∀ label p, answer.probabilities.get? label = some p → p ≤ 1) →
        (∃ label p, answer.probabilities.get? label = some p ∧ eps < p) →
        ∀ label, MostLikely (m.apply ofLevel task question answer).probabilities label →
          MostLikely answer.probabilities label) ∧
      ((∀ T, m.temperatures.get? (mapKey answer.model task question) = some T → 1 ≤ T) →
        (∀ p ∈ answer.probabilities.values, 0 ≤ p) → answer.probabilities.values.sum = 1 →
        Softmax.top (m.apply ofLevel task question answer).probabilities.values ≤
          Softmax.top answer.probabilities.values) := by
  have hsome : ∀ {row : List ℝ}, 2 ≤ row.length → row ≠ [] := by
    rintro row hlength rfl
    exact absurd hlength (by decide)
  refine ⟨fun row T hlength hrow hT => ?_, fun row T₁ T₂ hlength hrow hpos hle =>
    top_rescale_anti (hsome hlength) hpos hle, fun m ofLevel task question answer hT => ?_⟩
  · have hne := hsome hlength
    have hpos : ∀ q ∈ rescale row T, 0 ≤ q := fun q hq => (Softmax.softmax_pos hq).le
    refine ⟨by rw [rescale_eq, List.length_map], fun q hq => ⟨hpos q hq, ?_⟩, sum_rescale hne T, ?_⟩
    · rw [← sum_rescale hne T]
      exact List.single_le_sum hpos q hq
    · intro i j p q p' q' hi hj hi' hj'
      rw [rescale_eq, List.getElem?_map, hi, Option.map_some, Option.some.injEq] at hi'
      rw [rescale_eq, List.getElem?_map, hj, Option.map_some, Option.some.injEq] at hj'
      obtain ⟨hp, hp1⟩ := hrow p (List.mem_of_getElem? hi)
      obtain ⟨hq, hq1⟩ := hrow q (List.mem_of_getElem? hj)
      rw [← hi', ← hj', prob_le_iff hne hT, clip_of_mem hp hp1, clip_of_mem hq hq1]
  -- without a temperature for the task and question the answer is left as it is
  · rcases apply_cases m ofLevel task question answer with
      hsame | ⟨T, hget, hkeys, hprobs, hchoice, hnoul⟩
    · rw [hsame]
      exact ⟨fun _ _ => rfl, fun _ => rfl, fun _ h => h, fun _ _ _ h => h, fun _ _ _ => le_rfl⟩
    · have hpos := hT T hget
      rw [hprobs]
      refine ⟨fun htype hbinary => ?_, hchoice, fun label h => h.scaled hpos,
        fun hone hlarge label h => h.of_scaled hpos hone hlarge, fun hone hnonneg hsum => ?_⟩
      · rw [hnoul htype, hbinary.agrees]
        simp only [half_le_scaled_iff hpos hbinary.labels hbinary.sum]
      · have hvalues : answer.probabilities.values ≠ [] := by
          intro hempty
          apply hkeys
          rw [Dict.keys, List.map_eq_nil_iff.mp hempty, List.map_nil]
        exact top_scaled_le (hone T hget) hvalues hnonneg hsum

/-! ## A relevant announcement -/

namespace Relevant

noncomputable def map : CalibrationMap :=
  ⟨.set .empty "laya:multilingual|announcements.relevant" 3⟩

noncomputable def answer : ExactAnswer :=
  { type := .noul, value := .flag true
    probabilities := Dict.set (.set .empty "false" (1 / 20)) "true" (19 / 20)
    confidence := 19 / 20, model := "laya:multilingual", calibrated := false }

theorem temperature {T : ℝ}
    (h : map.temperatures.get? (mapKey answer.model "announcements" "relevant") = some T) :
    T = 3 := by
  have hkey : mapKey answer.model "announcements" "relevant" =
      "laya:multilingual|announcements.relevant" := by decide
  rw [hkey, map, Dict.get?_set_self] at h
  exact (Option.some.inj h).symm

theorem values : answer.probabilities.values = [1 / 20, 19 / 20] := by
  simp [answer, Dict.values, Dict.set, Dict.put, Dict.empty]

theorem true_half : (1 : ℝ) / 2 ≤ (answer.probabilities.get? "true").getD 0 := by
  have hget : answer.probabilities.get? "true" = some (19 / 20) := Dict.get?_set_self _ _ _
  rw [hget, Option.getD_some]
  norm_num

theorem binary : answer.Binary where
  labels := by simp [answer, Dict.keys, Dict.set, Dict.put, Dict.empty]
  sum := by
    rw [values]
    norm_num
  agrees := by
    rw [decide_eq_true true_half]
    rfl

/-- The row of the answer at two temperatures, and the answer itself. -/
theorem calibration_keeps_answer_relevant :
    (rescale [1 / 20, 19 / 20] 3).sum = 1 ∧
    Softmax.top (rescale [1 / 20, 19 / 20] 3) ≤ Softmax.top (rescale [1 / 20, 19 / 20] 1) ∧
    (map.apply (fun _ => "") "announcements" "relevant" answer).value = .flag true ∧
    Softmax.top (map.apply (fun _ => "") "announcements" "relevant" answer).probabilities.values ≤
      Softmax.top [1 / 20, 19 / 20] := by
  have hrow : ∀ p ∈ ([1 / 20, 19 / 20] : List ℝ), eps ≤ p ∧ p ≤ 1 := by
    simp only [List.mem_cons, List.not_mem_nil, or_false, forall_eq_or_imp, forall_eq]
    norm_num [eps]
  obtain ⟨hvector, hsofter, hanswer⟩ := calibration_keeps_answer
  obtain ⟨hnoul, -, -, -, htop⟩ := hanswer map (fun _ => "") "announcements" "relevant" answer
    fun T hT => by rw [temperature hT]; norm_num
  refine ⟨(hvector _ 3 le_rfl hrow (by norm_num)).2.2.1,
    hsofter _ 1 3 le_rfl hrow one_pos (by norm_num), hnoul rfl binary, ?_⟩
  rw [← values]
  refine htop (fun T hT => by rw [temperature hT]; norm_num) (fun p hp => ?_) binary.sum
  rw [values] at hp
  simp only [List.mem_cons, List.not_mem_nil, or_false] at hp
  rcases hp with rfl | rfl <;> norm_num

end Relevant

end Calibration

end DecisionModels

end RakshaQuant
