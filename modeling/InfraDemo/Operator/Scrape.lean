import Mathlib.Data.List.Permutation
import InfraDemo.Prometheus.Exposition
import InfraDemo.Operator.Metrics

/-!
# Scrape — what the parser makes of a Prometheus exposition

The parser knows a sample by a line of two fields.  Of the samples the format allows those are the
bare ones; one that is joined is an error, and any other is passed over, which leaves a zero in its
place.  `understands_iff` says when an exposition with one sample of each kind is read as it should
be.
-/

namespace InfraDemo.Operator

open InfraDemo.Go InfraDemo.Prometheus

/-! ### Folds in Except -/

section Fold

variable {α β ε : Type} {f : β → α → Except ε β}

/-- Elements that change nothing can be left out. -/
theorem foldlM_filter {p : α → Bool} {l : List α}
    (h : ∀ x ∈ l, p x = false → ∀ b, f b x = .ok b) (b : β) :
    l.foldlM f b = (l.filter p).foldlM f b := by
  induction l generalizing b with
  | nil => rfl
  | cons x l ih =>
    have ih' := ih fun y hy => h y (List.mem_cons_of_mem x hy)
    cases hx : p x with
    | true =>
      rw [List.filter_cons_of_pos hx, List.foldlM_cons, List.foldlM_cons]
      exact bind_congr fun b' => ih' b'
    | false =>
      rw [List.filter_cons_of_neg (by simp [hx]), List.foldlM_cons, h x List.mem_cons_self hx b]
      exact ih' b

/-- An element that is always an error makes the fold one. -/
theorem foldlM_error {l : List α} {x : α} (hx : x ∈ l) (h : ∀ b, ∃ e, f b x = .error e) (b : β) :
    ∃ e, l.foldlM f b = .error e := by
  induction l generalizing b with
  | nil => cases hx
  | cons y l ih =>
    rw [List.foldlM_cons]
    rcases List.mem_cons.mp hx with rfl | hx
    · obtain ⟨e, he⟩ := h b
      exact ⟨e, by rw [he]; rfl⟩
    · cases hy : f b y with
      | error e => exact ⟨e, rfl⟩
      | ok b' => exact ih hx b'

/-- One element of each of two kinds: they come in either order. -/
theorem filter_or_of_singletons {p q : α → Bool} {l : List α} {x y : α} (hp : l.filter p = [x])
    (hq : l.filter q = [y]) (hpq : ∀ z, p z = true → q z = false) :
    (l.filter fun z => p z || q z) = [x, y] ∨ (l.filter fun z => p z || q z) = [y, x] := by
  have hleft : (l.filter fun z => p z || q z).filter p = [x] := by
    rw [List.filter_filter, ← hp]
    congr 1
    funext z
    cases p z <;> rfl
  have hright : ((l.filter fun z => p z || q z).filter fun z => !p z) = [y] := by
    rw [List.filter_filter, ← hq]
    congr 1
    funext z
    cases hz : p z with
    | true => rw [hpq z hz]; rfl
    | false => rw [Bool.not_false, Bool.true_and, Bool.false_or]
  have hperm := List.filter_append_perm p (l.filter fun z => p z || q z)
  rw [hleft, hright, List.singleton_append] at hperm
  exact List.perm_pair.mp hperm.symm

end Fold

/-! ### Lines of an exposition -/

section Steps

variable {P : Platform} {s : Sample} {m : Metrics}

/-- The samples of a name in an exposition. -/
def samplesNamed (name : Text) (e : Exposition) : List Sample :=
  e.samples.filter fun s => runes s.name.chars = name

theorem parseLine_skip {line : Text} (h : sample? kvCacheName line = none)
    (h' : sample? requestsWaitingName line = none) : parseLine P m line = .ok m := by
  unfold sample? at h h'
  unfold parseLine
  split
  · next name value hf =>
    rw [hf] at h h'
    have hk : name ≠ kvCacheName := fun he => by simp [he] at h
    have hr : name ≠ requestsWaitingName := fun he => by simp [he] at h'
    rw [if_neg hk, if_neg hr]
  · rfl

/-- The names the parser asks for, without a brace or a number sign. -/
theorem plain_names {name : Text} (h : name = kvCacheName ∨ name = requestsWaitingName) :
    Rune.char '{' ∉ name ∧ Rune.char '#' ∉ name := by
  rcases h with rfl | rfl <;> decide

/-- A line that is no sample of the name. -/
theorem sample?_entry {name : Text} (hn : Rune.char '{' ∉ name ∧ Rune.char '#' ∉ name) {x : Entry}
    (hx : ∀ s, x = .sample s → runes s.name.chars = name → s.Scattered) :
    sample? name x.text = none := by
  rw [Option.eq_none_iff_forall_not_mem]
  intro v hv
  have hf : fields x.text = [name, v] := sample?_eq_some.mp hv
  cases x with
  | blank gap =>
    rw [fields_blank] at hf
    cases hf
  | comment lead rest oneLine =>
    obtain ⟨w, fs, hc⟩ := fields_comment lead rest oneLine
    rw [hc] at hf
    refine hn.2 ?_
    rw [← (List.cons.inj hf).1]
    exact List.mem_cons_self
  | sample s =>
    have hname : runes s.name.chars = name ∨ s.Scattered := by
      by_cases hb : s.Bare
      · have h := (fields_bare hb).symm.trans hf
        exact .inl (List.cons.inj h).1
      · by_cases hj : s.Joined
        · obtain ⟨cs, hcs⟩ := fields_joined hj
          exact .inl (List.cons.inj (hcs.symm.trans hf)).1
        · exact .inr ⟨hb, hj⟩
    have hs : s.Scattered := hname.elim (hx s rfl) id
    exact fields_scattered hs hn.1 hf

/-- A sample of another name, or a scattered one, changes nothing. -/
theorem parseLine_sample_skip (h : (runes s.name.chars = kvCacheName ∨
    runes s.name.chars = requestsWaitingName) → s.Scattered) : parseLine P m s.text = .ok m := by
  refine parseLine_skip (sample?_entry (x := .sample s) (plain_names (.inl rfl)) ?_)
    (sample?_entry (x := .sample s) (plain_names (.inr rfl)) ?_)
  · rintro s' hs' hname
    cases hs'
    exact h (.inl hname)
  · rintro s' hs' hname
    cases hs'
    exact h (.inr hname)

variable (P) in
/-- Only samples matter. -/
theorem foldlM_entries (e : Exposition) (m : Metrics) :
    (e.map Entry.text).foldlM (parseLine P) m =
      e.samples.foldlM (fun m s => parseLine P m s.text) m := by
  induction e generalizing m with
  | nil => rfl
  | cons x e ih =>
    have hskip : (∀ s, x ≠ .sample s) → parseLine P m x.text = .ok m := fun hx =>
      parseLine_skip (sample?_entry (plain_names (.inl rfl)) fun s hs => absurd hs (hx s))
        (sample?_entry (plain_names (.inr rfl)) fun s hs => absurd hs (hx s))
    rw [List.map_cons, List.foldlM_cons]
    cases x with
    | blank gap =>
      rw [hskip fun s => by simp]
      exact ih m
    | comment lead rest oneLine =>
      rw [hskip fun s => by simp]
      exact ih m
    | sample s =>
      show _ = (s :: Exposition.samples e).foldlM _ m
      rw [List.foldlM_cons]
      exact bind_congr fun m' => ih m'

variable (P) in
/-- Only the samples of the two names matter; of one of each, either may come first. -/
theorem parse_eq_two {e : Exposition} {s r : Sample} (hs : samplesNamed kvCacheName e = [s])
    (hr : samplesNamed requestsWaitingName e = [r]) :
    parsePrometheusMetrics P e.text = [s, r].foldlM (fun m s => parseLine P m s.text) {} ∨
      parsePrometheusMetrics P e.text = [r, s].foldlM (fun m s => parseLine P m s.text) {} := by
  have he : e ≠ [] := by
    rintro rfl
    cases hs
  have hall : parsePrometheusMetrics P e.text =
      (e.samples.filter fun s => decide (runes s.name.chars = kvCacheName) ||
        decide (runes s.name.chars = requestsWaitingName)).foldlM
          (fun m s => parseLine P m s.text) {} := by
    rw [parsePrometheusMetrics, lines_text he, foldlM_entries P]
    refine foldlM_filter (fun s _ hno m => parseLine_sample_skip fun hname => ?_) _
    rw [Bool.or_eq_false_iff, decide_eq_false_iff_not, decide_eq_false_iff_not] at hno
    exact absurd hname (not_or.mpr hno)
  rw [hall]
  refine (filter_or_of_singletons hs hr fun z hz => ?_).imp (fun h => by rw [h]) fun h => by rw [h]
  rw [decide_eq_true_eq] at hz
  rw [hz, decide_eq_false_iff_not]
  exact requestsWaitingName_ne.symm

end Steps

/-! ### One sample of each -/

section Understands

variable {P : Platform} {s r : Sample} {v : ℚ} {n : ℕ}

/-- The number a value denotes, where it is no infinity and no NaN. -/
def Denotes (x : Number) (v : ℚ) : Prop := special? x.chars = none ∧ literalValue? x.chars = some v

/-- A parse that finds the usage `v` and `n` requests waiting. -/
def Understood (P : Platform) (text : Text) (v : ℚ) (n : ℕ) : Prop :=
  ∃ m, parsePrometheusMetrics P text = .ok m ∧ m.kvCacheUsagePercent.toInt = truncate (100 * v) ∧
    m.numRequestsWaiting.toInt = n

/-- What starts with a brace is no number. -/
theorem not_number_brace (P : Platform) (cs : List Char) :
    parseFloat P (runes ('{' :: cs)) = .error .errSyntax ∧
      atoi (runes ('{' :: cs)) = .error .errSyntax := by
  constructor
  · have hspecial : special? ('{' :: cs) = none := by simp [special?, stripSign]
    have hvalue : literalValue? ('{' :: cs) = none := by
      simp [literalValue?, stripSign, readMantissa, digit?]
    simp only [parseFloat, Text.chars?_runes, hspecial, hvalue]
  · rfl

theorem parseFloat_of_denotes {x : Number} (hx : Denotes x v) (h0 : 0 ≤ v) (h1 : v ≤ 1)
    (hnear : P.unit.nearest v = v) : parseFloat P (runes x.chars) = .ok (.finite v) := by
  have hle : |v| ≤ 2 ^ 31 := by
    rw [abs_of_nonneg h0]
    exact h1.trans (by norm_num)
  rw [parseFloat_of_abs_le hx.1 hx.2 hle, hnear]

theorem usagePercent_of_le_one (hmul : P.unit.mul v 100 = v * 100) (h0 : 0 ≤ v) (h1 : v ≤ 1) :
    (usagePercent P (.finite v)).toInt = truncate (100 * v) := by
  refine usagePercent_exact P hmul ?_
  rw [abs_of_nonneg (by positivity)]
  linarith

theorem parseLine_joined (hname : runes s.name.chars = kvCacheName ∨
    runes s.name.chars = requestsWaitingName) (hj : s.Joined) (m : Metrics) :
    ∃ e, parseLine P m s.text = .error e := by
  obtain ⟨cs, hcs⟩ := fields_joined hj
  obtain ⟨hfloat, hatoi⟩ := not_number_brace P cs
  unfold parseLine
  rw [hcs]
  rcases hname with hn | hn
  · simp only [hn, if_true, hfloat]
    exact ⟨_, rfl⟩
  · simp only [hn, if_neg requestsWaitingName_ne, if_true, hatoi]
    exact ⟨_, rfl⟩

theorem parseLine_usage (hname : runes s.name.chars = kvCacheName) (hb : s.Bare)
    (hv : parseFloat P (runes s.value.chars) = .ok (.finite v)) (m : Metrics) :
    parseLine P m s.text = .ok { m with kvCacheUsagePercent := usagePercent P (.finite v) } := by
  unfold parseLine
  rw [fields_bare hb]
  simp only [hname, if_true, hv]

theorem parseLine_waiting (hname : runes s.name.chars = requestsWaitingName) (hb : s.Bare)
    (hn : atoi (runes s.value.chars) = .ok (n : ℤ)) (m : Metrics) :
    parseLine P m s.text = .ok { m with numRequestsWaiting := Int32.ofInt n } := by
  unfold parseLine
  rw [fields_bare hb]
  simp only [hname, if_neg requestsWaitingName_ne, if_true, hn]

theorem parseLine_waiting_error (hname : runes s.name.chars = requestsWaitingName) (hb : s.Bare)
    (hdec : ¬ IsDecimal s.value.chars) (m : Metrics) : ∃ e, parseLine P m s.text = .error e := by
  obtain ⟨e, he⟩ := atoi_of_not_isDecimal hdec
  unfold parseLine
  rw [fields_bare hb]
  simp only [hname, if_neg requestsWaitingName_ne, if_true, he]
  exact ⟨_, rfl⟩

theorem mem_samplesNamed {name : Text} {e : Exposition} (hs : samplesNamed name e = [s]) :
    runes s.name.chars = name := by
  have hmem : s ∈ samplesNamed name e := hs ▸ List.mem_singleton_self s
  exact of_decide_eq_true (List.mem_filter.mp hmem).2

/-- A sample that the parser always refuses. -/
theorem not_understood {e : Exposition} (hs : samplesNamed kvCacheName e = [s])
    (hr : samplesNamed requestsWaitingName e = [r])
    (h : (∀ m, ∃ err, parseLine P m s.text = .error err) ∨
      ∀ m, ∃ err, parseLine P m r.text = .error err) : ¬ Understood P e.text v n := by
  rintro ⟨m, hm, -⟩
  have herr : ∀ l : List Sample, s ∈ l → r ∈ l →
      ∃ err, l.foldlM (fun m s => parseLine P m s.text) ({} : Metrics) = .error err := by
    intro l hsl hrl
    rcases h with h | h
    · exact foldlM_error hsl h _
    · exact foldlM_error hrl h _
  rcases parse_eq_two P hs hr with heq | heq
  · obtain ⟨err, he⟩ := herr [s, r] (by simp) (by simp)
    rw [heq, he] at hm
    cases hm
  · obtain ⟨err, he⟩ := herr [r, s] (by simp) (by simp)
    rw [heq, he] at hm
    cases hm

/-- Two samples that are read or passed over, in either order. -/
theorem understood_of_reads {e : Exposition} {u w : Option Int32}
    (hs : samplesNamed kvCacheName e = [s]) (hr : samplesNamed requestsWaitingName e = [r])
    (hsu : ∀ m, parseLine P m s.text =
      .ok { m with kvCacheUsagePercent := u.getD m.kvCacheUsagePercent })
    (hrw : ∀ m, parseLine P m r.text =
      .ok { m with numRequestsWaiting := w.getD m.numRequestsWaiting }) :
    Understood P e.text v n ↔ (u.getD 0).toInt = truncate (100 * v) ∧ (w.getD 0).toInt = n := by
  have hparse : parsePrometheusMetrics P e.text =
      .ok { kvCacheUsagePercent := u.getD 0, numRequestsWaiting := w.getD 0 } := by
    rcases parse_eq_two P hs hr with heq | heq
    · rw [heq]
      simp only [List.foldlM_cons, List.foldlM_nil, hsu, hrw]
      rfl
    · rw [heq]
      simp only [List.foldlM_cons, List.foldlM_nil, hsu, hrw]
      rfl
  constructor
  · rintro ⟨m, hm, hu, hw⟩
    rw [hparse] at hm
    cases hm
    exact ⟨hu, hw⟩
  · rintro ⟨hu, hw⟩
    exact ⟨_, hparse, hu, hw⟩

theorem truncate_eq_zero_iff (h0 : 0 ≤ v) : (0 : ℤ) = truncate (100 * v) ↔ 100 * v < 1 := by
  have hnonneg : 0 ≤ 100 * v := by positivity
  have hlt : ⌊100 * v⌋ < 1 ↔ 100 * v < 1 := by exact_mod_cast Int.floor_lt (a := 100 * v) (z := 1)
  have hge : 0 ≤ ⌊100 * v⌋ := Int.floor_nonneg.mpr hnonneg
  rw [truncate, if_pos hnonneg, ← hlt]
  omega

theorem toInt_ofInt_of_lt (hn : n < 2 ^ 31) : (Int32.ofInt n).toInt = n :=
  Int32.toInt_ofInt_of_le (by omega) (by omega)

/-- A usage that is not joined is read where it stands bare, else passed over. -/
theorem usage_read (hname : runes s.name.chars = kvCacheName) (hj : ¬ s.Joined)
    (hv : Denotes s.value v) (h0 : 0 ≤ v) (h1 : v ≤ 1) (hnear : P.unit.nearest v = v)
    (hmul : P.unit.mul v 100 = v * 100) : ∃ u : Option Int32,
      (∀ m, parseLine P m s.text =
        .ok { m with kvCacheUsagePercent := u.getD m.kvCacheUsagePercent }) ∧
      ((u.getD 0).toInt = truncate (100 * v) ↔ s.Bare ∨ s.Scattered ∧ 100 * v < 1) := by
  by_cases hb : s.Bare
  · exact ⟨some _, parseLine_usage hname hb (parseFloat_of_denotes hv h0 h1 hnear),
      iff_of_true (usagePercent_of_le_one hmul h0 h1) (.inl hb)⟩
  · have hsc : s.Scattered := ⟨hb, hj⟩
    refine ⟨none, fun m => parseLine_sample_skip fun _ => hsc, ?_⟩
    exact (truncate_eq_zero_iff h0).trans ⟨fun h => .inr ⟨hsc, h⟩, fun h => (h.resolve_left hb).2⟩

/-- So is a number of requests, if it is a decimal where it stands bare. -/
theorem waiting_read (hname : runes r.name.chars = requestsWaitingName) (hj : ¬ r.Joined)
    (hn : Denotes r.value n) (hlt : n < 2 ^ 31) (hdec : ¬ (r.Bare ∧ ¬ IsDecimal r.value.chars)) :
    ∃ w : Option Int32,
      (∀ m, parseLine P m r.text =
        .ok { m with numRequestsWaiting := w.getD m.numRequestsWaiting }) ∧
      ((w.getD 0).toInt = n ↔ r.Bare ∧ IsDecimal r.value.chars ∨ r.Scattered ∧ n = 0) := by
  by_cases hb : r.Bare
  · have hdec' : IsDecimal r.value.chars := not_not.mp fun h => hdec ⟨hb, h⟩
    have hatoi : atoi (runes r.value.chars) = .ok (n : ℤ) :=
      atoi_of_isDecimal hdec' hn.2 (by omega)
    exact ⟨some _, parseLine_waiting hname hb hatoi,
      iff_of_true (toInt_ofInt_of_lt hlt) (.inl ⟨hb, hdec'⟩)⟩
  · have hsc : r.Scattered := ⟨hb, hj⟩
    refine ⟨none, fun m => parseLine_sample_skip fun _ => hsc, ?_⟩
    show ((0 : ℤ) = n) ↔ _
    constructor
    · intro h
      exact .inr ⟨hsc, by omega⟩
    · intro h
      have hzero := (h.resolve_left fun h' => hb h'.1).2
      omega

/-- **Which expositions are understood.**  Of those with one sample of each name: a usage from 0 to 1
and a number of requests below `2^31` are found exactly if the usage stands bare, or is scattered and
less than one percent, and the number stands bare as a decimal integer, or is scattered and zero. -/
theorem understands_iff {e : Exposition} (hs : samplesNamed kvCacheName e = [s])
    (hr : samplesNamed requestsWaitingName e = [r]) (hv : Denotes s.value v) (h0 : 0 ≤ v)
    (h1 : v ≤ 1) (hn : Denotes r.value n) (hlt : n < 2 ^ 31) (hnear : P.unit.nearest v = v)
    (hmul : P.unit.mul v 100 = v * 100) : Understood P e.text v n ↔
      (s.Bare ∨ s.Scattered ∧ 100 * v < 1) ∧
        (r.Bare ∧ IsDecimal r.value.chars ∨ r.Scattered ∧ n = 0) := by
  have hsname := mem_samplesNamed hs
  have hrname := mem_samplesNamed hr
  by_cases hsj : s.Joined
  · refine iff_of_false (not_understood hs hr (.inl (parseLine_joined (.inl hsname) hsj))) ?_
    rintro ⟨hb | ⟨hsc, -⟩, -⟩
    · exact hb.not_joined hsj
    · exact hsc.2 hsj
  by_cases hrj : r.Joined
  · refine iff_of_false (not_understood hs hr (.inr (parseLine_joined (.inr hrname) hrj))) ?_
    rintro ⟨-, ⟨hb, -⟩ | ⟨hsc, -⟩⟩
    · exact hb.not_joined hrj
    · exact hsc.2 hrj
  by_cases hbad : r.Bare ∧ ¬ IsDecimal r.value.chars
  · obtain ⟨hb, hdec⟩ := hbad
    refine iff_of_false
      (not_understood hs hr (.inr (parseLine_waiting_error hrname hb hdec))) ?_
    rintro ⟨-, ⟨-, hd⟩ | ⟨hsc, -⟩⟩
    · exact hdec hd
    · exact hsc.1 hb
  -- both lines are read or passed over
  obtain ⟨u, hu, huv⟩ := usage_read hsname hsj hv h0 h1 hnear hmul
  obtain ⟨w, hw, hwn⟩ := waiting_read (P := P) hrname hrj hn hlt hbad
  rw [understood_of_reads hs hr hu hw, huv, hwn]

/-- No blanks. -/
def noGap : Gap := ⟨[], by simp⟩

def oneBlank : Blank := ⟨⟨[' '], by simp⟩, by simp⟩

def usageName : Name :=
  ⟨"vllm_kv_cache_usage_perc".toList, by decide, List.all_eq_true.mp (by decide)⟩

def waitingName : Name :=
  ⟨"vllm_num_requests_waiting".toList, by decide, List.all_eq_true.mp (by decide)⟩

theorem solid_of_all {cs : List Char} (h : cs.all fun c => !isSpaceChar c) :
    ∀ c ∈ cs, isSpaceChar c = false := fun c hc => by simpa using List.all_eq_true.mp h c hc

def half : Number := ⟨"0.5".toList, by decide, solid_of_all (by decide), by decide +kernel⟩

def three : Number := ⟨"3".toList, by decide, solid_of_all (by decide), by decide +kernel⟩

def modelLabel : Label where
  before := noGap
  name := ⟨"model".toList, by decide, List.all_eq_true.mp (by decide)⟩
  noColon := by decide
  beforeEq := noGap
  afterEq := noGap
  value := "m".toList
  after := noGap

/-- `name value` -/
def plainSample (name : Name) (value : Number) : Sample :=
  ⟨noGap, name, .bare oneBlank, value, none, noGap⟩

/-- `name{model="m"} value` -/
def labelledSample (name : Name) (value : Number) : Sample :=
  ⟨noGap, name, .labelled noGap ⟨[], some modelLabel, noGap⟩ oneBlank.toGap, value, none, noGap⟩

theorem understands_iff_plain :
    Understood ⟨.exact, fun _ => 0, fun _ => true⟩ (Exposition.text
        [.sample (plainSample usageName half), .sample (plainSample waitingName three)])
        (1 / 2) 3 ↔
      ((plainSample usageName half).Bare ∨
        (plainSample usageName half).Scattered ∧ (100 * (1 / 2) : ℚ) < 1) ∧
      ((plainSample waitingName three).Bare ∧ IsDecimal three.chars ∨
        (plainSample waitingName three).Scattered ∧ 3 = 0) :=
  understands_iff rfl rfl ⟨by decide +kernel, by decide +kernel⟩ (by norm_num) (by norm_num)
    ⟨by decide +kernel, by decide +kernel⟩ (by norm_num) rfl rfl

/-- `vllm_kv_cache_usage_perc{model="m"} 0.5` is read as zero. -/
theorem labelled_usage_is_zero :
    ¬ ∀ (P : Platform) (e : Exposition) (s r : Sample) (v : ℚ) (n : ℕ),
      samplesNamed kvCacheName e = [s] → samplesNamed requestsWaitingName e = [r] →
      Denotes s.value v → 0 ≤ v → v ≤ 1 → Denotes r.value n → n < 2 ^ 31 →
      P.unit.nearest v = v → P.unit.mul v 100 = v * 100 → Understood P e.text v n := by
  intro h
  obtain ⟨m, hm, husage, -⟩ := h ⟨.exact, fun _ => 0, fun _ => true⟩
    [.sample (labelledSample usageName half), .sample (plainSample waitingName three)]
    (labelledSample usageName half) (plainSample waitingName three) (1 / 2) 3 rfl rfl
    ⟨by decide +kernel, by decide +kernel⟩ (by norm_num) (by norm_num)
    ⟨by decide +kernel, by decide +kernel⟩ (by norm_num) rfl rfl
  have hread : parsePrometheusMetrics ⟨.exact, fun _ => 0, fun _ => true⟩ (Exposition.text
      [.sample (labelledSample usageName half), .sample (plainSample waitingName three)]) =
        .ok { numRequestsWaiting := 3 } := by
    decide +kernel
  rw [hread] at hm
  cases hm
  rw [truncate, if_pos (by norm_num)] at husage
  norm_num at husage
  exact absurd husage (by decide)

end Understands

end InfraDemo.Operator
