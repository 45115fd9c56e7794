import Wadi.Http.Receive

/-!
The chunked transfer coding. A round of the decoder decides the same whatever arrives later, or
picks up where it waited, so that the decoder can be fed in any pieces. What it accepts is the
sequence of chunks that `ChunkedStream` describes: sizes are any spelling in hexadecimal digits,
read modulo `2 ^ 64`, and nothing behind the line of the last chunk is looked at.
-/

namespace Wadi.Http
open ByteText Draining Runs
namespace Receiving

variable {c t : ChunkedBody} {b rest : Bytes}

theorem chunkSizeRound_some {line : Bytes} (h : cut crlf b = some (line, rest)) :
    chunkSizeRound c b = openChunk c line rest := by
  simp only [chunkSizeRound, h]

theorem openChunk_error {line : Bytes} {e : HttpError} (size : hexStringToUint line = .error e) :
    openChunk c line rest = .stop (.error e) := by
  simp only [openChunk, size]

theorem openChunk_zero {line : Bytes} (size : hexStringToUint line = .ok 0) :
    openChunk c line rest = .stop (.ok { c with expectedChunkSize := 0 }) := by
  simp only [openChunk, size, if_true]

theorem openChunk_size {line : Bytes} {n : Nat} (size : hexStringToUint line = .ok n)
    (proper : n ≠ 0) : openChunk c line rest = .next { c with expectedChunkSize := n } rest := by
  simp only [openChunk, size, proper, if_false]

theorem chunkSizeRound_none (h : cut crlf b = none) : chunkSizeRound c b = .wait c b := by
  simp only [chunkSizeRound, h]

theorem chunkRound_short (open_ : 0 < c.expectedChunkSize)
    (short : b.length ≤ c.expectedChunkSize) :
    chunkRound c b = .wait
      { body := c.body ++ b
        expectedChunkSize := c.expectedChunkSize - b.length
        removeCrlfAfterChunk :=
          if c.expectedChunkSize - b.length = 0 then true else c.removeCrlfAfterChunk } [] := by
  have all : min c.expectedChunkSize b.length = b.length := Nat.min_eq_right short
  simp only [chunkRound, open_, if_true, all, List.take_length, List.drop_length]

theorem chunkRound_long (open_ : 0 < c.expectedChunkSize)
    (long : c.expectedChunkSize < b.length) :
    chunkRound c b =
      .next ⟨c.body ++ b.take c.expectedChunkSize, 0, true⟩ (b.drop c.expectedChunkSize) := by
  have part : min c.expectedChunkSize b.length = c.expectedChunkSize :=
    Nat.min_eq_left (Nat.le_of_lt long)
  have left : b.drop c.expectedChunkSize ≠ [] := by
    rw [ne_eq, List.drop_eq_nil_iff]
    omega
  simp only [chunkRound, open_, if_true, part, Nat.sub_self, left, if_false]

theorem chunkRound_size (closed : c.expectedChunkSize = 0)
    (plain : c.removeCrlfAfterChunk = false) : chunkRound c b = chunkSizeRound c b := by
  simp [chunkRound, closed, plain]

theorem chunkRound_end (closed : c.expectedChunkSize = 0) (ended : c.removeCrlfAfterChunk = true) :
    chunkRound c b =
      if b.length < 2 then .wait c b
      else if b.take 2 = crlf then
        chunkSizeRound { c with removeCrlfAfterChunk := false } (b.drop 2)
      else .stop (.error (.response .invalidChunk)) := by
  simp [chunkRound, closed, ended]

theorem chunkRound_crlf (closed : c.expectedChunkSize = 0) (ended : c.removeCrlfAfterChunk = true) :
    chunkRound c (crlf ++ rest) = chunkSizeRound { c with removeCrlfAfterChunk := false } rest := by
  rw [chunkRound_end closed ended, if_neg (by simp [crlf]), if_pos (by simp [crlf])]
  rfl

theorem chunk_situation (c : ChunkedBody) :
    0 < c.expectedChunkSize ∨
      (c.expectedChunkSize = 0 ∧ c.removeCrlfAfterChunk = true) ∨
      (c.expectedChunkSize = 0 ∧ c.removeCrlfAfterChunk = false) := by
  cases c.removeCrlfAfterChunk <;> simp <;> omega

theorem chunkSizeRound_shrinks (h : chunkSizeRound c b = .next t rest) :
    rest.length < b.length := by
  cases found : cut crlf b with
  | none =>
      rw [chunkSizeRound_none found] at h
      cases h
  | some parts =>
      obtain ⟨line, after⟩ := parts
      rw [chunkSizeRound_some found] at h
      cases size : hexStringToUint line with
      | error e =>
          rw [openChunk_error size] at h
          cases h
      | ok n =>
          by_cases last : n = 0
          · rw [openChunk_zero (last ▸ size)] at h
            cases h
          · rw [openChunk_size size last] at h
            cases h
            rw [eq_of_cut found, crlf]
            simp only [List.length_append, List.length_cons]
            omega

theorem chunkRound_shrinks : Shrinks chunkRound := by
  intro c b t rest h
  obtain open_ | ⟨closed, ended⟩ | ⟨closed, plain⟩ := chunk_situation c
  · by_cases long : c.expectedChunkSize < b.length
    · rw [chunkRound_long open_ long] at h
      cases h
      rw [List.length_drop]
      omega
    · rw [chunkRound_short open_ (Nat.not_lt.mp long)] at h
      cases h
  · rw [chunkRound_end closed ended] at h
    split at h
    · cases h
    · split at h
      · have shorter := chunkSizeRound_shrinks h
        rw [List.length_drop] at shorter
        omega
      · cases h
  · rw [chunkRound_size closed plain] at h
    exact chunkSizeRound_shrinks h

theorem chunkSizeRound_continues (c : ChunkedBody) (b more : Bytes) :
    match chunkSizeRound c b with
    | .stop r => chunkSizeRound c (b ++ more) = .stop r
    | .next t rest => chunkSizeRound c (b ++ more) = .next t (rest ++ more)
    | .wait t rest => t = c ∧ rest = b := by
  cases found : cut crlf b with
  | none =>
      rw [chunkSizeRound_none found]
      exact ⟨rfl, rfl⟩
  | some parts =>
      obtain ⟨line, after⟩ := parts
      have later := cut_append crlf_ne_nil found more
      rw [chunkSizeRound_some found, chunkSizeRound_some later]
      cases size : hexStringToUint line with
      | error e => simp only [openChunk_error size]
      | ok n =>
          by_cases last : n = 0
          · simp only [openChunk_zero (last ▸ size)]
          · simp only [openChunk_size size last]

theorem chunkRound_continues_data (open_ : 0 < c.expectedChunkSize) (b more : Bytes) :
    Continues chunkRound c b more := by
  rw [Continues]
  by_cases long : c.expectedChunkSize < b.length
  · rw [chunkRound_long open_ long]
    have longer : c.expectedChunkSize < (b ++ more).length := by
      rw [List.length_append]
      omega
    simp only [chunkRound_long open_ longer, List.take_append_of_le_length (Nat.le_of_lt long),
      List.drop_append_of_le_length (Nat.le_of_lt long)]
  · have short := Nat.not_lt.mp long
    rw [chunkRound_short open_ short]
    simp only [List.nil_append]
    by_cases complete : c.expectedChunkSize = b.length
    · cases more with
      | nil =>
          left
          rw [List.append_nil, chunkRound_short open_ short,
            chunkRound_end (by simp [complete]) (by simp [complete])]
          rfl
      | cons m more =>
          right
          rw [chunkRound_long open_ (by simp [complete])]
          simp [complete]
    · left
      have remaining : 0 < c.expectedChunkSize - b.length := by omega
      have open' : c.expectedChunkSize - b.length ≠ 0 := by omega
      by_cases fits : more.length ≤ c.expectedChunkSize - b.length
      · rw [chunkRound_short open_ (by rw [List.length_append]; omega),
          chunkRound_short remaining fits]
        simp [open', Nat.sub_sub]
      · rw [chunkRound_long open_ (by rw [List.length_append]; omega),
          chunkRound_long remaining (Nat.not_le.mp fits)]
        simp [List.take_append, List.drop_append, List.take_of_length_le short,
          List.drop_eq_nil_of_le short]

/-- The decoder can be fed in any pieces. -/
theorem chunkRound_resumable : Resumable chunkRound where
  shrinks := chunkRound_shrinks
  continues := by
    intro c b more
    obtain open_ | ⟨closed, ended⟩ | ⟨closed, plain⟩ := chunk_situation c
    · exact chunkRound_continues_data open_ b more
    · rw [Continues, chunkRound_end closed ended]
      by_cases few : b.length < 2
      · rw [if_pos few]
        exact Or.inl rfl
      · have enough : 2 ≤ b.length := Nat.not_lt.mp few
        have later : chunkRound c (b ++ more) = if b.take 2 = crlf then
            chunkSizeRound { c with removeCrlfAfterChunk := false } (b.drop 2 ++ more)
            else .stop (.error (.response .invalidChunk)) := by
          rw [chunkRound_end closed ended, if_neg (by rw [List.length_append]; omega),
            List.take_append_of_le_length enough, List.drop_append_of_le_length enough]
        rw [if_neg few, later]
        by_cases lineEnd : b.take 2 = crlf
        · have size := chunkSizeRound_continues { c with removeCrlfAfterChunk := false }
            (b.drop 2) more
          rw [if_pos lineEnd, if_pos lineEnd]
          revert size
          cases chunkSizeRound { c with removeCrlfAfterChunk := false } (b.drop 2) with
          | stop r => exact id
          | next t rest => exact id
          | wait t rest =>
              rintro ⟨rfl, rfl⟩
              exact Or.inl (chunkRound_size (c := { c with removeCrlfAfterChunk := false })
                closed rfl).symm
        · rw [if_neg lineEnd, if_neg lineEnd]
    · have size := chunkSizeRound_continues c b more
      rw [Continues, chunkRound_size closed plain, chunkRound_size closed plain]
      revert size
      cases chunkSizeRound c b with
      | stop r => exact id
      | next t rest => exact id
      | wait t rest =>
          rintro ⟨rfl, rfl⟩
          exact Or.inl (chunkRound_size closed plain).symm

end Receiving

theorem digit_of_toUint {base : Nat} {digit : UInt8 → Except HttpError Nat} {s : Bytes} {n : Nat}
    (h : toUint base digit s = .ok n) {c : UInt8} (mem : c ∈ s) : ∃ d, digit c = .ok d := by
  obtain ⟨u, v, taken⟩ := step_of_mem_run (h : run _ 0 s = .ok n) mem
  obtain ⟨d, read, -⟩ := bind_eq_ok taken
  exact ⟨d, read⟩

theorem cr_not_mem_size {line : Bytes} {n : Nat} (h : hexStringToUint line = .ok n) :
    0x0D ∉ line := by
  intro mem
  obtain ⟨d, read⟩ := digit_of_toUint h mem
  exact absurd read (by simp [hexDigitToUint])

/-- A sequence of chunks, the body it carries, and what follows the line of the last chunk. -/
inductive ChunkedStream : Bytes → Bytes → Bytes → Prop where
  | last {line : Bytes} (rest : Bytes) (size : hexStringToUint line = .ok 0) :
      ChunkedStream (line ++ (crlf ++ rest)) [] rest
  | chunk {line data stream body rest : Bytes} (size : hexStringToUint line = .ok data.length)
      (proper : data ≠ []) (more : ChunkedStream stream body rest) :
      ChunkedStream (line ++ (crlf ++ (data ++ (crlf ++ stream)))) (data ++ body) rest

namespace Receiving
variable {c : ChunkedBody} {line data stream body rest : Bytes} {n : Nat}

theorem cut_size (size : hexStringToUint line = .ok n) (rest : Bytes) :
    cut crlf (line ++ (crlf ++ rest)) = some (line, rest) := by
  rw [crlf, cut_of_not_mem (cr_not_mem_size size), cut_pattern]
  simp

theorem drain_last (size : hexStringToUint line = .ok 0) (rest pre : Bytes) :
    drain chunkRound { body := pre } (line ++ (crlf ++ rest)) = .error (.ok { body := pre }) := by
  apply drain_stop
  rw [chunkRound_size rfl rfl, chunkSizeRound_some (cut_size size rest), openChunk_zero size]

theorem drain_chunk (size : hexStringToUint line = .ok data.length) (proper : data ≠ [])
    (stream pre : Bytes) :
    drain chunkRound { body := pre } (line ++ (crlf ++ (data ++ (crlf ++ stream)))) =
      drain chunkRound { body := pre ++ data } stream := by
  have some_data : 0 < data.length := List.length_pos_iff.mpr proper
  have opened : chunkRound { body := pre } (line ++ (crlf ++ (data ++ (crlf ++ stream)))) =
      .next ⟨pre, data.length, false⟩ (data ++ (crlf ++ stream)) := by
    rw [chunkRound_size rfl rfl, chunkSizeRound_some (cut_size size _),
      openChunk_size size (Nat.ne_of_gt some_data)]
  have copied : chunkRound ⟨pre, data.length, false⟩ (data ++ (crlf ++ stream)) =
      .next ⟨pre ++ data, 0, true⟩ (crlf ++ stream) := by
    rw [chunkRound_long some_data (by simp [crlf])]
    simp
  have ended : chunkRound ⟨pre ++ data, 0, true⟩ (crlf ++ stream) =
      chunkRound { body := pre ++ data } stream := by
    rw [chunkRound_crlf rfl rfl, chunkRound_size rfl rfl]
  rw [drain_next chunkRound_shrinks opened, drain_next chunkRound_shrinks copied]
  exact drain_congr chunkRound_shrinks ended

/-- The decoder goes on behind a size only when the whole chunk and its line end are there. -/
theorem chunk_of_drain {size : Nat} (proper : size ≠ 0) {pre after : Bytes} {done : ChunkedBody}
    (h : drain chunkRound ⟨pre, size, false⟩ after = .error (.ok done)) :
    ∃ data stream, after = data ++ (crlf ++ stream) ∧ data.length = size ∧
      drain chunkRound { body := pre ++ data } stream = .error (.ok done) := by
  have open_ : 0 < size := Nat.pos_of_ne_zero proper
  by_cases long : size < after.length
  · rw [drain_next chunkRound_shrinks (chunkRound_long open_ long)] at h
    have ending := chunkRound_end (c := ⟨pre ++ after.take size, 0, true⟩)
      (b := after.drop size) rfl rfl
    by_cases few : (after.drop size).length < 2
    · rw [if_pos few] at ending
      rw [drain_wait ending] at h
      cases h
    · by_cases lineEnd : (after.drop size).take 2 = crlf
      · have split : after.drop size = crlf ++ (after.drop size).drop 2 := by
          rw [← lineEnd, List.take_append_drop]
        refine ⟨after.take size, (after.drop size).drop 2, ?_, ?_, ?_⟩
        · rw [← split, List.take_append_drop]
        · rw [List.length_take]
          omega
        · rw [← h]
          apply drain_congr chunkRound_shrinks
          rw [ending, if_neg few, if_pos lineEnd, chunkRound_size rfl rfl]
      · rw [if_neg few, if_neg lineEnd] at ending
        rw [drain_stop ending] at h
        cases h
  · rw [drain_wait (chunkRound_short open_ (Nat.not_lt.mp long))] at h
    cases h

/-- A decoder that finishes has been given chunks up to the last. -/
theorem chunks_of_drain {pre stream : Bytes} {done : ChunkedBody}
    (h : drain chunkRound { body := pre } stream = .error (.ok done)) :
    ∃ body rest, ChunkedStream stream body rest ∧ done = { body := pre ++ body } := by
  induction hn : stream.length using Nat.strongRecOn generalizing pre stream with
  | ind n ih =>
      have round : chunkRound { body := pre } stream = chunkSizeRound { body := pre } stream :=
        chunkRound_size rfl rfl
      cases found : cut crlf stream with
      | none =>
          rw [chunkSizeRound_none found] at round
          rw [drain_wait round] at h
          cases h
      | some parts =>
          obtain ⟨line, after⟩ := parts
          obtain rfl := eq_of_cut found
          rw [chunkSizeRound_some found] at round
          cases size : hexStringToUint line with
          | error e =>
              rw [drain_stop (round.trans (openChunk_error size))] at h
              cases h
          | ok m =>
              by_cases last : m = 0
              · subst last
                rw [drain_stop (round.trans (openChunk_zero size))] at h
                cases h
                exact ⟨[], after, .last after size, by simp⟩
              · rw [drain_next chunkRound_shrinks (round.trans (openChunk_size size last))] at h
                obtain ⟨data, tail, rfl, length, goesOn⟩ := chunk_of_drain last h
                obtain ⟨body, rest, chunks, rfl⟩ := ih tail.length
                  (by rw [← hn]; simp only [List.length_append]; omega) goesOn rfl
                have proper : data ≠ [] := List.ne_nil_of_length_pos (by omega)
                exact ⟨data ++ body, rest, .chunk (length ▸ size) proper chunks, by simp⟩

theorem drain_of_chunks {stream body rest : Bytes} (chunks : ChunkedStream stream body rest)
    (pre : Bytes) :
    drain chunkRound { body := pre } stream = .error (.ok { body := pre ++ body }) := by
  induction chunks generalizing pre with
  | last rest size => rw [drain_last size, List.append_nil]
  | chunk size proper _ ih => rw [drain_chunk size proper, ih, List.append_assoc]

end Receiving
end Wadi.Http
