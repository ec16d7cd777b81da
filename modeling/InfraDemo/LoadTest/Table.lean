import Mathlib.Data.Prod.Lex
import Mathlib.Data.String.Basic
import InfraDemo.Go.Text
import InfraDemo.LoadTest.Percentile
import InfraDemo.LoadTest.Kinds

/-!
# Table — the report and the order in which results come in

Sessions end in any order and the injector appends whenever it likes.  No two results of a run have
the same session and turn (`nodup_allKeys`), so the table lists them in one order, and the numbers
under it are those of the values, not of their order (`printResults_perm`).
-/

namespace InfraDemo.LoadTest

open InfraDemo.Ranks

variable {a : Args} {s s' : State}

/-! ### Injections have numbers of their own -/

/-- The numbers of the injections whose results are in the list. -/
def State.injectIds (s : State) : List ℕ :=
  (s.allResults.filter fun r => ¬ r.isChat).map fun r => r.session.number

/-- The numbers grow, the one of an injection that runs is the last. -/
structure State.Numbered (s : State) : Prop where
  sorted : s.injectIds.Pairwise (· < ·)
  le : ∀ n ∈ s.injectIds, n ≤ s.injectId
  lt : s.injecting = true → ∀ n ∈ s.injectIds, n < s.injectId

theorem injectIds_extend (h : s.Sound a) {i : ℕ} {w : ChatSession}
    (future : s.sessions[i]? = some w) (main : Main) : (s.extend i w main).injectIds = s.injectIds := by
  have hw := h.sessions w (List.mem_of_getElem? future)
  have hnone : w.results.filter (fun r => ¬ r.isChat) = [] := by
    rw [List.filter_eq_nil_iff]
    intro r hr
    simp [hw.isChat hr]
  unfold State.injectIds
  show ((s.allResults ++ w.results).filter _).map _ = _
  rw [List.filter_append, hnone, List.append_nil]

theorem numbered_step (hsound : s.Sound a) (hs : s.Step a s') (h : s.Numbered) : s'.Numbered := by
  cases hs with
  | @collect done i w _ _ future | @complete rest i w _ _ future =>
    have hids := injectIds_extend hsound future
    exact ⟨by rw [hids]; exact h.sorted, by rw [hids]; exact h.le, by rw [hids]; exact h.lt⟩
  | fire injects running idle =>
    exact ⟨h.sorted, fun n hn => (h.le n hn).trans (Nat.le_succ _),
      fun _ n hn => Nat.lt_succ_of_le (h.le n hn)⟩
  | inject busy reply =>
    have hids : State.injectIds { s with
        allResults := s.allResults ++ [injectRow s.injectId reply], injecting := false } =
        s.injectIds ++ [s.injectId] := by
      unfold State.injectIds
      rw [List.filter_append, List.map_append]
      rfl
    refine ⟨?_, ?_, fun hfalse => absurd hfalse Bool.false_ne_true⟩
    · rw [hids, List.pairwise_append]
      refine ⟨h.sorted, List.pairwise_singleton _ _, fun n hn m hm => ?_⟩
      rw [List.mem_singleton.mp hm]
      exact h.lt busy n hn
    · rw [hids]
      intro n hn
      rcases List.mem_append.mp hn with hn | hn
      · exact h.le n hn
      · exact (List.mem_singleton.mp hn).le
  | misfire busy => exact ⟨h.sorted, h.le, fun hfalse => absurd hfalse Bool.false_ne_true⟩
  | _ => exact ⟨h.sorted, h.le, h.lt⟩

theorem reachable_numbered (h : s.Reachable a) : s.Numbered := by
  induction h with
  | init => exact ⟨List.Pairwise.nil, fun _ hn => absurd hn List.not_mem_nil,
      fun _ _ hn => absurd hn List.not_mem_nil⟩
  | step hreached hstep ih => exact numbered_step (reachable_sound hreached) hstep ih

/-- **No two results have the same session and turn.** -/
theorem nodup_allKeys (h : s.Reachable a) : (s.allResults.map Row.key).Nodup := by
  obtain ⟨p, -, hcollected, -⟩ := exists_pool h
  have hchat := nodup_keys (reachable_sound h) (hcollected ▸ p.nodup)
  have hinject : ((s.allResults.filter fun r => ¬ r.isChat).map Row.key).Nodup := by
    have hids : s.injectIds.Nodup := (reachable_numbered h).sorted.imp fun hlt => hlt.ne
    refine List.Nodup.of_map (fun k : Origin × ℕ => k.1.number) ?_
    rw [List.map_map]
    exact hids
  have hperm := List.filter_append_perm Row.isChat s.allResults
  refine (hperm.map Row.key).nodup_iff.mp ?_
  rw [List.map_append, List.nodup_append]
  refine ⟨hchat, by simpa using hinject, ?_⟩
  rintro x hx y hy rfl
  obtain ⟨r, hr, rfl⟩ := List.mem_map.mp hx
  obtain ⟨r', hr', hkey⟩ := List.mem_map.mp hy
  have hsession : r'.session = r.session := congrArg Prod.fst hkey
  have hchat := (List.mem_filter.mp hr).2
  have hother := (List.mem_filter.mp hr').2
  unfold Row.isChat at hchat hother
  rw [hsession] at hother
  rw [hchat] at hother
  cases hother

/-! ### The order of the table -/

theorem Origin.text_injective : Function.Injective Origin.text := by
  have hdigits : ∀ m n : ℕ, toString m ≠ "INJ-" ++ toString n := by
    intro m n h
    have hmem : 'I' ∈ m.repr.toList := by
      rw [show m.repr = "INJ-" ++ toString n from h, String.toList_append]
      exact List.mem_append_left _ (by decide)
    exact absurd (Go.isDigit_of_mem_repr hmem) (by decide)
  intro o o' h
  cases o with
  | session m =>
    cases o' with
    | session n => exact congrArg _ (Go.repr_injective h)
    | inject n => exact absurd h (hdigits m n)
  | inject m =>
    cases o' with
    | session n => exact absurd h.symm (hdigits n m)
    | inject n => exact congrArg _ (Go.repr_injective ((String.append_right_inj _).mp h))

/-- The key of `sorted`, from the text or the number of the session. -/
def Row.rank {α : Type} (f : Origin → α) (r : Row) : Lex (α × ℕ) := toLex (f r.session, r.turn)

theorem rank_nodup {α : Type} {f : Origin → α} {rows : List Row} (h : (rows.map Row.key).Nodup)
    (hf : ∀ r ∈ rows, ∀ r' ∈ rows, f r.session = f r'.session → r.session = r'.session) :
    (rows.map (Row.rank f)).Nodup := by
  refine List.Nodup.map_on (fun r hr r' hr' hrank => ?_) (List.Nodup.of_map _ h)
  have hpair : (f r.session, r.turn) = (f r'.session, r'.turn) := toLex.injective hrank
  obtain ⟨hsession, hturn⟩ := Prod.mk.inj hpair
  exact List.inj_on_of_nodup_map h hr hr' (Prod.ext (hf r hr r' hr' hsession) hturn)

theorem le_multiSession : Row.le .multiSession =
    fun r r' => decide (r.rank Origin.number ≤ r'.rank Origin.number) := by
  funext r r'
  simp [Row.le, Row.rank, Prod.Lex.toLex_le_toLex, beq_eq_decide]

theorem le_chunkedPrefill : Row.le .chunkedPrefill =
    fun r r' => decide (r.rank Origin.text ≤ r'.rank Origin.text) := by
  funext r r'
  simp [Row.le, Row.rank, Prod.Lex.toLex_le_toLex, beq_eq_decide]

/-- The table of a run does not depend on the order of the results. -/
theorem table_perm (hs : s.Reachable a) {rows : List Row} (h : rows.Perm s.allResults) :
    rows.mergeSort (Row.le a.script) = s.allResults.mergeSort (Row.le a.script) := by
  have hkeys : (rows.map Row.key).Nodup := (h.map Row.key).nodup_iff.mpr (nodup_allKeys hs)
  cases hscript : a.script with
  | multiSession =>
    have hno : ¬ a.Injects := by
      rintro ⟨hchunked, -⟩
      rw [hscript] at hchunked
      cases hchunked
    have hchat : ∀ r ∈ rows, ∃ n, r.session = .session n := by
      intro r hr
      have hr' := ((reachable_sound hs).noInject hno).2 r (h.mem_iff.mp hr)
      unfold Row.isChat at hr'
      cases hsession : r.session with
      | session n => exact ⟨n, rfl⟩
      | inject n =>
        rw [hsession] at hr'
        cases hr'
    rw [le_multiSession]
    refine mergeSort_key_congr h (rank_nodup hkeys fun r hr r' hr' hnumber => ?_)
    obtain ⟨n, hn⟩ := hchat r hr
    obtain ⟨m, hm⟩ := hchat r' hr'
    rw [hn, hm] at hnumber ⊢
    exact congrArg _ hnumber
  | chunkedPrefill =>
    rw [le_chunkedPrefill]
    exact mergeSort_key_congr h (rank_nodup hkeys fun r _ r' _ htext => Origin.text_injective htext)

/-! ### The numbers under the table -/

theorem latency_perm {data data' : List ℚ} (h : data.Perm data') : latency data = latency data' := by
  have hsorted : sorted data = sorted data' := ordered_congr h
  unfold latency median p95
  rw [hsorted, h.length_eq]

theorem max?_perm {data data' : List ℚ} (h : data.Perm data') : data.max? = data'.max? := by
  cases hmax : data.max? with
  | none =>
    rw [List.max?_eq_none_iff] at hmax
    rw [hmax, List.nil_perm] at h
    rw [h]
    rfl
  | some m =>
    obtain ⟨hmem, hle⟩ := List.max?_eq_some_iff.mp hmax
    refine (List.max?_eq_some_iff.mpr ⟨h.mem_iff.mp hmem, fun x hx => ?_⟩).symm
    exact hle x (h.mem_iff.mpr hx)

theorem summary_perm (script : Script) {rows rows' : List Row} (h : rows.Perm rows') :
    summary script rows = summary script rows' := by
  cases script with
  | multiSession =>
    have htpot : median (rows.map Row.tpotMs) = median (rows'.map Row.tpotMs) := by
      unfold median
      rw [show sorted _ = sorted _ from ordered_congr (h.map Row.tpotMs),
        (h.map Row.tpotMs).length_eq]
    dsimp only [summary]
    rw [latency_perm (h.map Row.ttftMs), max?_perm (h.map Row.ttftMs), htpot]
  | chunkedPrefill =>
    have hkind : ∀ kind, (ttftsOf kind rows).Perm (ttftsOf kind rows') := fun kind =>
      (h.filter _).map _
    have hnil : ttftsOf .inject rows = [] ↔ ttftsOf .inject rows' = [] := by
      rw [← List.length_eq_zero_iff, (hkind .inject).length_eq, List.length_eq_zero_iff]
    dsimp only [summary]
    simp only [latency_perm (hkind .chat), latency_perm (hkind .inject), hnil]

/-- **The report is that of the results, in whatever order they came in**, and no two of them have the
same session and turn. -/
theorem printResults_perm (hs : s.Reachable a) : (s.allResults.map Row.key).Nodup ∧
    ∀ rows : List Row, rows.Perm s.allResults →
      printResults a.script rows = printResults a.script s.allResults := by
  refine ⟨nodup_allKeys hs, fun rows h => ?_⟩
  have hnil : rows = [] ↔ s.allResults = [] := by
    rw [← List.length_eq_zero_iff, h.length_eq, List.length_eq_zero_iff]
  unfold printResults
  rw [table_perm hs h, summary_perm a.script h]
  simp only [hnil]

/-- A turn and an injection, in the one order and in the other. -/
theorem printResults_perm_mixedOnce : ∃ s : State, s.Reachable mixedOnce ∧
    s.allResults.length = 2 ∧ printResults .chunkedPrefill s.allResults.reverse =
      printResults .chunkedPrefill s.allResults := by
  have hreply := (State.Reachable.init (a := mixedOnce)).step
    (.session (i := 0) rfl (.reply rfl ⟨40, 10, 3, "yes"⟩))
  have hcheck := hreply.step (.session (i := 0) rfl (.check rfl))
  have hcomplete := hcheck.step
    (.complete (i := 0) rfl (show 0 ∈ Finset.range 1 by decide) rfl rfl)
  have hfire := hcomplete.step (.fire ⟨rfl, rfl⟩ rfl rfl)
  have hinject := hfire.step (.inject rfl ⟨900, 10, 3, "cold"⟩)
  exact ⟨_, hinject, rfl, (printResults_perm hinject).2 _ (List.reverse_perm _)⟩

end InfraDemo.LoadTest
