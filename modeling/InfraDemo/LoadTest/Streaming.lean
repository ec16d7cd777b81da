import Mathlib.Tactic.FieldSimp
import Mathlib.Tactic.Linarith
import InfraDemo.LoadTest.Session
import InfraDemo.Python.Builtins

/-!
# Streaming — the latency of a streamed reply

`run_inference` of the two load generators, from the lines of the response on (decoded, as the scripts
read them).  `json.loads` is a parameter, and `clock i` is what the call number `i` of
`time.perf_counter` returns.  `measure` is the result before rounding.
-/

namespace InfraDemo.LoadTest

open Python

/-! ### The loop over the lines -/

/-- The variables of the loop, and the number of clock readings so far. -/
structure Stream where
  tFirstToken : Option ℚ
  tokenTimes : List ℚ
  fullResponse : List Json
  tDone : Option ℚ
  reads : ℕ

def dataPrefix : List Char := "data: ".toList

def doneMarker : List Char := "[DONE]".toList

/-- What follows the prefix of a data line. -/
def payload? (rawLine : List Char) : Option (List Char) :=
  let line := strip rawLine
  if line = [] ∨ ¬ dataPrefix.isPrefixOf line then none else some (line.drop dataPrefix.length)

/-- `chunk.get("choices", [{}])[0].get("delta", {}).get("content", "") or ""` -/
def tokenText (chunk : Json) : Option Json := do
  let choices ← chunk.get "choices" (.arr [.obj []])
  let choice ← choices.first
  let delta ← choice.get "delta" (.obj [])
  let content ← delta.get "content" (.str [])
  some (content.or (.str []))

variable (loads : List Char → Option Json) (clock : ℕ → ℚ)

/-- The body of the loop for the data of a chunk. -/
def Stream.chunk (s : Stream) (data : List Char) : Option Stream := do
  let chunk ← loads data
  let now := clock s.reads
  let text ← tokenText chunk
  if text.truthy then
    some { s with
      tFirstToken := s.tFirstToken.or (some now)
      tokenTimes := s.tokenTimes ++ [now]
      fullResponse := s.fullResponse ++ [text]
      reads := s.reads + 1 }
  else some { s with reads := s.reads + 1 }

def Stream.loop (s : Stream) : List (List Char) → Option Stream
  | [] => some s
  | rawLine :: rest =>
    match payload? rawLine with
    | none => s.loop rest
    | some data =>
      if data = doneMarker then
        some { s with tDone := some (clock s.reads), reads := s.reads + 1 }
      else do
        let s ← s.chunk loads clock data
        s.loop rest

/-- The result before rounding. -/
structure Measured where
  ttftMs : ℚ
  tpotMs : ℚ
  totalTokens : ℕ
  responseFull : List Char

/-- What follows the loop. -/
def Stream.finish (tRequestSent : ℚ) (s : Stream) : Option Measured := do
  let tDone := orTime s.tDone (clock s.reads)
  let tFirstToken := orTime s.tFirstToken tDone
  let totalTokens := s.tokenTimes.length
  let totalGeneration := if 1 < totalTokens then tDone - tFirstToken else 0
  let responseFull ← Json.join s.fullResponse
  some
    { ttftMs := (tFirstToken - tRequestSent) * 1000
      tpotMs := if 1 < totalTokens then totalGeneration / (totalTokens - 1) * 1000 else 0
      totalTokens
      responseFull }

/-- The request is sent at the first reading. -/
def Stream.sent : Stream where
  tFirstToken := none
  tokenTimes := []
  fullResponse := []
  tDone := none
  reads := 1

def measure (lines : List (List Char)) : Option Measured := do
  let s ← Stream.sent.loop loads clock lines
  s.finish clock (clock 0)

def runInference (lines : List (List Char)) : Option Inference :=
  (measure loads clock lines).map fun m =>
    { ttftMs := roundTo m.ttftMs 1
      tpotMs := roundTo m.tpotMs 1
      totalTokens := m.totalTokens
      responseFull := String.ofList m.responseFull }

/-! ### Chunks -/

/-- The data of the chunks before the first `[DONE]`. -/
def payloads (lines : List (List Char)) : List (List Char) :=
  (lines.filterMap payload?).takeWhile (· ≠ doneMarker)

variable {loads clock} {s s' : Stream} {lines : List (List Char)} {data text : List Char}

theorem payloads_skip {rawLine : List Char} (h : payload? rawLine = none) :
    payloads (rawLine :: lines) = payloads lines := by
  rw [payloads, List.filterMap_cons_none h, payloads]

theorem payloads_done {rawLine : List Char} (h : payload? rawLine = some doneMarker) :
    payloads (rawLine :: lines) = [] := by
  rw [payloads, List.filterMap_cons_some h, List.takeWhile_cons_of_neg (by simp)]

theorem payloads_chunk {rawLine : List Char} (h : payload? rawLine = some data)
    (hdata : data ≠ doneMarker) : payloads (rawLine :: lines) = data :: payloads lines := by
  rw [payloads, List.filterMap_cons_some h, List.takeWhile_cons_of_pos (by simpa using hdata),
    payloads]

/-- The number of chunks with content. -/
def tokenCount (texts : List (List Char)) : ℕ := texts.countP fun t => t ≠ []

variable {texts : List (List Char)}

/-- The data of a chunk with content "yes". -/
def yesData : List Char :=
  "\x7b\"choices\":[\x7b\"delta\":\x7b\"content\":\"yes\"\x7d\x7d]\x7d".toList

/-- A parser that knows one chunk. -/
def loadsYes (data : List Char) : Option Json :=
  if data = yesData then
    some (.obj [("choices", .arr [.obj [("delta", .obj [("content", .str "yes".toList)])]])])
  else none

/-- Two tokens and the end. -/
def yesLines : List (List Char) :=
  [dataPrefix ++ yesData, [], dataPrefix ++ yesData, dataPrefix ++ doneMarker]

end InfraDemo.LoadTest
