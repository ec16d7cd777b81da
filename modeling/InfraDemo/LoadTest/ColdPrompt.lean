import InfraDemo.Lib.Prefixes
import InfraDemo.LoadTest.Session

/-!
# ColdPrompt — what the injected prompts have in common

The two versions of `run_injector` make their prompts differ in two ways, so that no cached prefix fits:
one puts the number of the injection in front, the other shuffles the topics (`build_cold_prompt`).  A
prefix cache has what a prompt shares with one sent before, which is the longest common prefix.
-/

namespace InfraDemo.LoadTest

open Prefixes

/-! ### Shuffled topics -/

/-- `COLD_PROMPT_PREAMBLE` -/
def coldPromptPreamble : List Char :=
  String.toList <|
    "You are an AI infrastructure engineer preparing a detailed technical design " ++
      "document.\n\nPlease write a comprehensive explanation covering ALL of the following " ++
      "topics in depth:"

/-- `COLD_PROMPT_TOPICS` -/
def coldPromptTopics : List String :=
  ["How transformer attention works mechanically — query, key, value projections, scaled " ++
      "dot-product attention, multi-head attention, and why the complexity is O(n^2) in " ++
      "sequence length.",
    "What the KV cache is, why it exists, how keys and values are stored across decode " ++
      "steps, and what happens to memory as sequence length grows.",
    "How PagedAttention works — the block table abstraction, how vLLM maps logical blocks " ++
      "to physical blocks, and how this enables copy-on-write for beam search.",
    "What chunked prefill is, why long prompts cause head-of-line blocking in a naive " ++
      "prefill implementation, and how interleaving prefill chunks with decode steps fixes " ++
      "P95 TTFT without hurting throughput.",
    "How prefix caching works at the block level — which blocks are eligible for reuse, " ++
      "how the hash key is computed, and what workloads benefit most.",
    "The tradeoff between block size and memory fragmentation — why small blocks reduce " ++
      "waste at sequence boundaries but increase block table overhead.",
    "How you would design a production Grafana dashboard to monitor all of the above — " ++
      "which vLLM Prometheus metrics you would track, what alert thresholds make sense, and " ++
      "what a KV cache saturation event looks like in the charts.",
    "How continuous batching works in vLLM — how requests are admitted mid-batch, why it " ++
      "improves GPU utilization over static batching, and what the scheduling policy looks " ++
      "like.",
    "What tensor parallelism is, how it splits attention heads and weight matrices across " ++
      "multiple GPUs, and what the communication overhead looks like at inference time.",
    "How speculative decoding works in LLM inference — the draft model, verification step, " ++
      "acceptance rate, and when it helps vs hurts throughput.",
    "What CUDA graphs are, why vLLM uses them to reduce kernel launch overhead, and what " ++
      "the tradeoff is between graph capture time and per-request latency.",
    "How weight quantization affects inference — the difference between PTQ and QAT, how " ++
      "GPTQ calibrates per-layer scale factors, and what quality degradation to expect at " ++
      "INT4 vs FP8.",
    "How KV cache quantization differs from weight quantization — why INT8 KV cache is " ++
      "safe for most workloads, and how it interacts with PagedAttention block management.",
    "How you would capacity plan an inference cluster — given a target QPS, SLA on TTFT " ++
      "and TPOT, model size, and GPU type, walk through the calculation to determine node " ++
      "count and KV cache budget."]

def coldPromptClosing : List Char :=
  "Be thorough. Each section should be at least three paragraphs.".toList

/-- A blank line. -/
def blank : List Char := ['\n', '\n']

/-- `f"{i}. "` -/
def label (i : ℕ) : List Char := (toString i).toList ++ ". ".toList

/-- `"\n\n".join(...)` of the topics, numbered from `i`. -/
def numbered (i : ℕ) : List String → List Char
  | [] => []
  | [t] => label i ++ t.toList
  | t :: rest => label i ++ t.toList ++ blank ++ numbered (i + 1) rest

/-- `build_cold_prompt`, from the list that `random.sample` returns on. -/
def buildColdPrompt (shuffled : List String) : List Char :=
  coldPromptPreamble ++ blank ++ numbered 1 shuffled ++ blank ++ coldPromptClosing

/-- What `random.sample(COLD_PROMPT_TOPICS, len(COLD_PROMPT_TOPICS))` can return. -/
def IsShuffle (shuffled : List String) : Prop := shuffled.Perm coldPromptTopics

/-! ### Numbered injections -/

/-- The prompt of an injection in the other script, whose `COLD_PROMPT` is a parameter. -/
def uniquePrompt (coldPrompt : List Char) (injectId : ℕ) : List Char :=
  "[Request ID: ".toList ++ (toString injectId).toList ++ "]".toList ++ blank ++ coldPrompt

variable {σ τ pre s t : List String} {a b : String} {i : ℕ}

/-! ### What two shuffles share -/

/-- The topics as they stand in the prompt, each with a blank line behind it. -/
def entries (i : ℕ) : List String → List Char
  | [] => []
  | t :: rest => label i ++ t.toList ++ blank ++ entries (i + 1) rest

theorem numbered_blank (h : σ ≠ []) : numbered i σ ++ blank = entries i σ := by
  induction σ generalizing i with
  | nil => exact absurd rfl h
  | cons t rest ih =>
    cases rest with
    | nil => simp [numbered, entries]
    | cons t' rest =>
      rw [numbered, entries, List.append_assoc, ih (List.cons_ne_nil t' rest)]
      exact List.cons_ne_nil t' rest

theorem entries_append (i : ℕ) (pre σ : List String) :
    entries i (pre ++ σ) = entries i pre ++ entries (i + pre.length) σ := by
  induction pre generalizing i with
  | nil => rfl
  | cons t pre ih =>
    rw [List.cons_append, entries, entries, ih, List.length_cons, List.append_assoc _ _ (entries _ σ),
      show i + 1 + pre.length = i + (pre.length + 1) by omega]

/-- The part of a prompt up to the topic at a place. -/
def upTo (pre : List String) : List Char :=
  coldPromptPreamble ++ blank ++ entries 1 pre ++ label (pre.length + 1)

/-- A prompt, seen from one of its topics. -/
theorem buildColdPrompt_split (pre : List String) (a : String) (s : List String) :
    buildColdPrompt (pre ++ a :: s) = upTo pre ++
      (a.toList ++ '\n' :: '\n' :: (entries (pre.length + 2) s ++ coldPromptClosing)) := by
  have hne : pre ++ a :: s ≠ [] := by simp
  have hrest : 1 + pre.length + 1 = pre.length + 2 := by omega
  rw [buildColdPrompt, List.append_assoc _ _ blank, numbered_blank hne, entries_append, entries, hrest]
  simp only [upTo, blank, List.append_assoc, List.cons_append, List.nil_append, Nat.add_comm 1]

theorem notMem_ofList {c : Char} {cs : List Char} (h : c ∉ cs) : c ∉ (String.ofList cs).toList := by
  rwa [String.toList_ofList]

theorem notMem_append {c : Char} {s t : String} (hs : c ∉ s.toList) (ht : c ∉ t.toList) :
    c ∉ (s ++ t).toList := by
  rw [String.toList_append, List.mem_append]
  exact fun hmem => hmem.elim hs ht

set_option maxRecDepth 4000 in
theorem newline_notMem : ∀ t ∈ coldPromptTopics, '\n' ∉ t.toList := by
  unfold coldPromptTopics
  repeat' refine List.forall_mem_cons.mpr ⟨?_, ?_⟩
  on_goal 15 => exact List.forall_mem_nil _
  all_goals
    repeat' with_reducible refine notMem_append ?_ ?_
    all_goals exact notMem_ofList (by decide +kernel)

theorem commonPrefix_split (ha : '\n' ∉ a.toList) (hb : '\n' ∉ b.toList) (hab : a ≠ b) :
    commonPrefix (buildColdPrompt (pre ++ a :: s)) (buildColdPrompt (pre ++ b :: t)) =
      upTo pre ++ commonPrefix a.toList b.toList := by
  have hlist : a.toList ≠ b.toList := fun heq => hab (String.toList_inj.mp heq)
  rw [buildColdPrompt_split, buildColdPrompt_split, commonPrefix_append,
    commonPrefix_marked ha hb hlist]

/-- Two shuffles that differ, at the first difference. -/
theorem shuffles_split (hσ : IsShuffle σ) (hτ : IsShuffle τ) (h : σ ≠ τ) :
    ∃ pre a b s t, σ = pre ++ a :: s ∧ τ = pre ++ b :: t ∧ a ≠ b ∧ s ≠ [] ∧
      '\n' ∉ a.toList ∧ '\n' ∉ b.toList := by
  have hperm : σ.Perm τ := hσ.trans hτ.symm
  obtain ⟨pre, a, b, s, t, rfl, rfl, hab⟩ := exists_first_difference hperm.length_eq h
  refine ⟨pre, a, b, s, t, rfl, rfl, hab, rest_ne_nil hperm hab, ?_, ?_⟩
  · exact newline_notMem a (hσ.subset (by simp))
  · exact newline_notMem b (hτ.subset (by simp))

/-- The prompt tells the shuffle. -/
theorem buildColdPrompt_inj (hσ : IsShuffle σ) (hτ : IsShuffle τ) :
    buildColdPrompt σ = buildColdPrompt τ ↔ σ = τ := by
  refine ⟨fun heq => ?_, congrArg buildColdPrompt⟩
  by_contra hne
  obtain ⟨pre, a, b, s, t, rfl, rfl, hab, -, ha, hb⟩ := shuffles_split hσ hτ hne
  have hshared : commonPrefix (buildColdPrompt (pre ++ a :: s)) (buildColdPrompt (pre ++ b :: t)) =
      upTo pre ++ commonPrefix a.toList b.toList := commonPrefix_split ha hb hab
  rw [← heq, commonPrefix_self, buildColdPrompt_split] at hshared
  have hlen := congrArg List.length (List.append_cancel_left hshared)
  have hle := (commonPrefix_prefix_left a.toList b.toList).length_le
  simp only [List.length_append, List.length_cons] at hlen
  omega

/-- All prompts start with the preamble and the first number. -/
theorem starts_upTo (hσ : IsShuffle σ) : upTo [] <+: buildColdPrompt σ := by
  cases σ with
  | nil => exact absurd hσ.length_eq (by decide)
  | cons a s => exact ⟨_, (buildColdPrompt_split [] a s).symm⟩

/-- **What shuffling leaves to a prefix cache**: the prompts of two shuffles are the same only if the
shuffles are; both start with the preamble and the first number, and what they share goes on over the
topics before the first difference, and over what the two topics there have in common. -/
theorem coldPrompt_shared (hσ : IsShuffle σ) (hτ : IsShuffle τ) :
    (buildColdPrompt σ = buildColdPrompt τ ↔ σ = τ) ∧
      upTo [] <+: commonPrefix (buildColdPrompt σ) (buildColdPrompt τ) ∧
      (σ ≠ τ → ∃ pre a b s t, σ = pre ++ a :: s ∧ τ = pre ++ b :: t ∧ a ≠ b ∧ s ≠ [] ∧
        commonPrefix (buildColdPrompt σ) (buildColdPrompt τ) =
          upTo pre ++ commonPrefix a.toList b.toList) := by
  refine ⟨buildColdPrompt_inj hσ hτ,
    prefix_commonPrefix_iff.mpr ⟨starts_upTo hσ, starts_upTo hτ⟩, fun hne => ?_⟩
  obtain ⟨pre, a, b, s, t, rfl, rfl, hab, hs, ha, hb⟩ := shuffles_split hσ hτ hne
  exact ⟨pre, a, b, s, t, rfl, rfl, hab, hs, commonPrefix_split ha hb hab⟩

theorem coldPrompt_shared_reverse :
    (buildColdPrompt coldPromptTopics = buildColdPrompt coldPromptTopics.reverse ↔
        coldPromptTopics = coldPromptTopics.reverse) ∧
      upTo [] <+: commonPrefix (buildColdPrompt coldPromptTopics)
        (buildColdPrompt coldPromptTopics.reverse) ∧
      (coldPromptTopics ≠ coldPromptTopics.reverse → ∃ pre a b s t,
        coldPromptTopics = pre ++ a :: s ∧ coldPromptTopics.reverse = pre ++ b :: t ∧ a ≠ b ∧ s ≠ [] ∧
        commonPrefix (buildColdPrompt coldPromptTopics) (buildColdPrompt coldPromptTopics.reverse) =
          upTo pre ++ commonPrefix a.toList b.toList) :=
  coldPrompt_shared (List.Perm.refl _) (List.reverse_perm _)

/-! ### What two numbers share -/

theorem toList_toString (n : ℕ) : (toString n).toList = Nat.toDigits 10 n := Nat.toList_repr

theorem bracket_notMem (n : ℕ) : ']' ∉ (toString n).toList := by
  rw [toList_toString]
  intro hmem
  exact absurd (Nat.isDigit_of_mem_toDigits (by decide) (by decide) hmem) (by decide)

theorem toString_length_mono {m n : ℕ} (h : m ≤ n) :
    (toString m).toList.length ≤ (toString n).toList.length := by
  rw [toList_toString, toList_toString]
  have hpos : 0 < (Nat.toDigits 10 n).length := Nat.length_toDigits_pos
  have hn : n < 10 ^ (Nat.toDigits 10 n).length :=
    (Nat.length_toDigits_le_iff (by decide) hpos).mp le_rfl
  exact (Nat.length_toDigits_le_iff (by decide) hpos).mpr (lt_of_le_of_lt h hn)

theorem toString_inj {m n : ℕ} (h : (toString m).toList = (toString n).toList) : m = n := by
  rw [toList_toString, toList_toString] at h
  rw [← Nat.ofDigitChars_ten_toDigits (n := m), h, Nat.ofDigitChars_ten_toDigits]

/-- **What a number in front leaves to a prefix cache**: a prompt shares with an earlier one the text
before the number and a beginning of the number, never all of it. -/
theorem uniquePrompt_shared (coldPrompt : List Char) {m n : ℕ} (h : m < n) :
    commonPrefix (uniquePrompt coldPrompt m) (uniquePrompt coldPrompt n) =
        "[Request ID: ".toList ++ commonPrefix (toString m).toList (toString n).toList ∧
      (commonPrefix (toString m).toList (toString n).toList).length <
        (toString n).toList.length := by
  have hne : (toString m).toList ≠ (toString n).toList := fun heq => h.ne (toString_inj heq)
  have hmark : ∀ xs : List Char, "]".toList ++ xs = ']' :: xs := fun xs => rfl
  have hleft := commonPrefix_prefix_left (toString m).toList (toString n).toList
  have hright := commonPrefix_prefix_right (toString m).toList (toString n).toList
  constructor
  · unfold uniquePrompt
    simp only [List.append_assoc, hmark, List.cons_append]
    rw [commonPrefix_append, commonPrefix_marked (bracket_notMem m) (bracket_notMem n) hne]
  · refine lt_of_le_of_ne hright.length_le fun hlen => hne ?_
    have hall : commonPrefix (toString m).toList (toString n).toList = (toString n).toList :=
      hright.eq_of_length hlen
    rw [hall] at hleft
    exact (hleft.eq_of_length_le (toString_length_mono h.le)).symm

theorem uniquePrompt_shared_ten :
    commonPrefix (uniquePrompt "cold".toList 1) (uniquePrompt "cold".toList 10) =
        "[Request ID: ".toList ++ commonPrefix (toString 1).toList (toString 10).toList ∧
      (commonPrefix (toString 1).toList (toString 10).toList).length < (toString 10).toList.length :=
  uniquePrompt_shared "cold".toList (by decide)

end InfraDemo.LoadTest
