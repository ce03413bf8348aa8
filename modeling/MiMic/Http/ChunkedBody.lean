import MiMic.Http.ChunkedGrammar

/-!
# Reading a chunked body

The calls of `parseStream` do what the scanner does on the bytes that they look at, whatever
the calls find in the stream and however large their buffers are.
-/
namespace MiMic.Http

open Verif

def CharStep.Keeps (p : BasicBodyParser) : CharStep → Prop
  | .next p' => p'.encodeType = p.encodeType ∧ p'.status ≠ .eob
  | .deliver p' => p'.encodeType = p.encodeType ∧ p'.status ≠ .eob
  | .stop p' => p'.encodeType = p.encodeType ∧ p'.status = .eob
  | .error => True

theorem extChar_keeps (p : BasicBodyParser) (c : UInt8) : (extChar p c).Keeps p := by
  unfold extChar
  split
  · split <;> exact ⟨rfl, BodySt.noConfusion⟩
  · exact ⟨rfl, BodySt.noConfusion⟩

theorem chunkedChar_keeps (p : BasicBodyParser) (c : UInt8) : (chunkedChar p c).Keeps p := by
  unfold chunkedChar
  split
  · next hst =>
    dsimp only
    split
    · exact ⟨rfl, BodySt.noConfusion⟩
    · exact ⟨rfl, by simp [hst]⟩
  · next hst =>
    split
    · split
      · trivial
      · exact ⟨rfl, by simp [hst]⟩
    · split
      · exact ⟨rfl, BodySt.noConfusion⟩
      · split
        · exact extChar_keeps p c
        · trivial
  · next hst =>
    split
    · exact ⟨rfl, by simp [hst]⟩
    · exact extChar_keeps p c
  · exact extChar_keeps p c
  · next hst =>
    split
    · exact ⟨rfl, by simp [hst]⟩
    · split
      · exact ⟨rfl, BodySt.noConfusion⟩
      · trivial
  · next hst =>
    split
    · exact ⟨rfl, by simp [hst]⟩
    · split
      · exact ⟨rfl, rfl⟩
      · trivial
  · trivial

/-- The end of a run that has come to the state `p` without an error. -/
def endOf (p : BasicBodyParser) (n : Nat) (out : List UInt8) : Verdict BasicBodyParser UInt8 :=
  if p.status = .eob then .done n out else .pending p out

theorem endOf_after (p : BasicBodyParser) (m n : Nat) (o out : List UInt8) :
    (endOf p n out).after m o = endOf p (m + n) (o ++ out) := by
  unfold endOf
  split <;> rfl

theorem ParseResult.took_of_succ {r : ParseResult} {n : Nat} (h : r.succ.ending = .took n) :
    ∃ k, r.ending = .took k ∧ n = k + 1 := by
  cases hend : r.ending with
  | error k => simp [ParseResult.succ, ParseEnd.succ, hend] at h
  | took k =>
    simp only [ParseResult.succ, ParseEnd.succ, hend] at h
    exact ⟨k, rfl, (ParseEnd.took.inj h).symm⟩

theorem ParseResult.error_of_succ {r : ParseResult} {i : Nat} (h : r.succ.ending = .error i) :
    ∃ k, r.ending = .error k ∧ i = 1 + k := by
  cases hend : r.ending with
  | took n => simp [ParseResult.succ, ParseEnd.succ, hend] at h
  | error k =>
    simp only [ParseResult.succ, ParseEnd.succ, hend] at h
    exact ⟨k, rfl, by rw [← ParseEnd.error.inj h, Nat.add_comm]⟩

theorem parseChunked_error {bufSize i : Nat} {p : BasicBodyParser} {buf cs : List UInt8}
    (h : (parseChunked bufSize p buf cs).ending = .error i) : chunkedStep.run p cs = .fail i := by
  induction cs generalizing p buf i with
  | nil => cases h
  | cons c cs ih =>
    rw [parseChunked] at h
    cases hc : chunkedChar p c with
    | next p' =>
      rw [hc] at h
      obtain ⟨k, hk, rfl⟩ := ParseResult.error_of_succ h
      rw [Scanner.run_next (chunkedStep_eq hc), ih hk]
      rfl
    | deliver p' =>
      rw [hc] at h
      have hs : chunkedStep p c = .next p' [c] := by rw [chunkedStep, hc]
      dsimp only at h
      split at h
      · obtain ⟨k, hk, rfl⟩ := ParseResult.error_of_succ h
        rw [Scanner.run_next hs, ih hk]
        rfl
      · cases h
    | stop p' =>
      rw [hc] at h
      cases h
    | error =>
      rw [hc] at h
      obtain rfl := ParseEnd.error.inj h
      exact Scanner.run_fail (chunkedStep_fail hc)

theorem parseChunked_took {bufSize n : Nat} {p : BasicBodyParser} {buf cs : List UInt8}
    (hst : p.status ≠ .eob) (h : (parseChunked bufSize p buf cs).ending = .took n) :
    ∃ out, (parseChunked bufSize p buf cs).buf = buf ++ out ∧ n ≤ cs.length ∧
      (parseChunked bufSize p buf cs).parser.encodeType = p.encodeType ∧
      chunkedStep.run p (cs.take n) = endOf (parseChunked bufSize p buf cs).parser n out := by
  induction cs generalizing p buf n with
  | nil =>
    obtain rfl := ParseEnd.took.inj h
    refine ⟨[], (List.append_nil buf).symm, le_rfl, rfl, ?_⟩
    rw [endOf, parseChunked, if_neg hst]
    rfl
  | cons c cs ih =>
    have hkeep := chunkedChar_keeps p c
    rw [parseChunked] at h ⊢
    cases hc : chunkedChar p c with
    | next p' =>
      rw [hc] at h hkeep
      obtain ⟨k, hk, rfl⟩ := ParseResult.took_of_succ h
      obtain ⟨out, hbuf, hle, henc, hrun⟩ := ih hkeep.2 hk
      refine ⟨out, hbuf, Nat.succ_le_succ hle, henc.trans hkeep.1, ?_⟩
      rw [List.take_succ_cons, Scanner.run_next (chunkedStep_eq hc), hrun, endOf_after,
        Nat.add_comm 1 k]
      rfl
    | deliver p' =>
      rw [hc] at h hkeep
      have hs : chunkedStep p c = .next p' [c] := by rw [chunkedStep, hc]
      dsimp only at h ⊢
      split at h
      · next hb =>
        rw [if_pos hb]
        obtain ⟨k, hk, rfl⟩ := ParseResult.took_of_succ h
        obtain ⟨out, hbuf, hle, henc, hrun⟩ := ih hkeep.2 hk
        refine ⟨c :: out, ?_, Nat.succ_le_succ hle, henc.trans hkeep.1, ?_⟩
        · refine hbuf.trans ?_
          rw [List.append_assoc, List.singleton_append]
        · rw [List.take_succ_cons, Scanner.run_next hs, hrun, endOf_after, Nat.add_comm 1 k]
          rfl
      · next hb =>
        rw [if_neg hb]
        obtain rfl := ParseEnd.took.inj h
        refine ⟨[c], rfl, by simp, hkeep.1, ?_⟩
        rw [List.take_succ_cons, List.take_zero, Scanner.run_next hs, endOf, if_neg hkeep.2]
        rfl
    | stop p' =>
      rw [hc] at h hkeep
      have hs : chunkedStep p c = .done [] := by rw [chunkedStep, hc]
      obtain rfl := ParseEnd.took.inj h
      refine ⟨[], (List.append_nil buf).symm, by simp, hkeep.1, ?_⟩
      rw [List.take_succ_cons, List.take_zero, Scanner.run_done hs, endOf, if_pos hkeep.2]
    | error =>
      rw [hc] at h
      cases h

/-- How the calls have ended. -/
def BodyRun.verdict (r : BodyRun) : Verdict BasicBodyParser UInt8 :=
  match r.errorAt with
  | some i => .fail i
  | none => endOf r.parser r.taken r.body

/-- A run that had taken `n` bytes before. -/
def BodyRun.after (n : Nat) (out : List UInt8) (r : BodyRun) : BodyRun :=
  ⟨r.parser, out ++ r.body, n + r.taken, r.errorAt.map (n + ·)⟩

theorem BodyRun.looked_after (n : Nat) (out : List UInt8) (r : BodyRun) :
    (r.after n out).looked = n + r.looked := by
  cases he : r.errorAt <;> simp [BodyRun.after, BodyRun.looked, he, Nat.add_assoc]

theorem BodyRun.verdict_after (n : Nat) (out : List UInt8) (r : BodyRun) :
    (r.after n out).verdict = r.verdict.after n out := by
  cases he : r.errorAt with
  | none => simp only [BodyRun.verdict, BodyRun.after, he, Option.map_none, endOf_after]
  | some i => simp only [BodyRun.verdict, BodyRun.after, he, Option.map_some, Verdict.after]

theorem readBody_eob {p : BasicBodyParser} (s : List UInt8) (calls : List ReadCall)
    (hst : p.status = .eob) : readBody p s calls = ⟨p, [], 0, none⟩ := by
  cases calls with
  | nil => rfl
  | cons call calls => rw [readBody, if_pos hst]

theorem parseStream_chunked {p : BasicBodyParser} (bufSize : Nat) (rx : List UInt8)
    (henc : p.encodeType = .chunked) (hst : p.status ≠ .eob) :
    parseStream bufSize p rx = parseChunked bufSize p [] rx := by
  rw [parseStream, if_neg hst, parseChar, henc]

theorem readBody_error {p : BasicBodyParser} {s : List UInt8} {call : ReadCall} {i : Nat}
    (calls : List ReadCall) (hst : p.status ≠ .eob)
    (h : (parseStream call.bufSize p (s.take call.available)).ending = .error i) :
    readBody p s (call :: calls) =
      ⟨(parseStream call.bufSize p (s.take call.available)).parser, [], 0, some i⟩ := by
  rw [readBody, if_neg hst]
  simp only [h]

theorem readBody_took {p : BasicBodyParser} {s : List UInt8} {call : ReadCall} {n : Nat}
    (calls : List ReadCall) (hst : p.status ≠ .eob)
    (h : (parseStream call.bufSize p (s.take call.available)).ending = .took n) :
    readBody p s (call :: calls) =
      (readBody (parseStream call.bufSize p (s.take call.available)).parser (s.drop n) calls).after n
        (parseStream call.bufSize p (s.take call.available)).buf := by
  rw [readBody, if_neg hst]
  simp only [h]
  rfl

/-- The calls end as the scanner does on what they looked at. -/
theorem readBody_verdict {p : BasicBodyParser} {s : List UInt8} {calls : List ReadCall}
    (henc : p.encodeType = .chunked) (hst : p.status ≠ .eob) :
    (readBody p s calls).verdict = chunkedStep.run p (s.take (readBody p s calls).looked) := by
  induction calls generalizing p s with
  | nil =>
    rw [readBody, BodyRun.verdict, endOf, if_neg hst]
    rfl
  | cons call calls ih =>
    have hps := parseStream_chunked call.bufSize (s.take call.available) henc hst
    cases hend : (parseStream call.bufSize p (s.take call.available)).ending with
    | error i =>
      rw [readBody_error calls hst hend, BodyRun.verdict, BodyRun.looked]
      rw [hps] at hend
      obtain ⟨hlt, -, hfail⟩ := Scanner.run_take_fail (parseChunked_error hend)
      rw [List.length_take] at hlt
      rw [List.take_take, Nat.min_eq_left (by omega)] at hfail
      exact hfail.symm
    | took n =>
      rw [readBody_took calls hst hend]
      rw [hps] at hend ⊢
      obtain ⟨out, hbuf, hle, henc', hrun⟩ := parseChunked_took hst hend
      rw [List.length_take] at hle
      rw [List.take_take, Nat.min_eq_left (by omega)] at hrun
      rw [List.nil_append] at hbuf
      rw [hbuf, BodyRun.verdict_after, BodyRun.looked_after]
      by_cases heob : (parseChunked call.bufSize p [] (s.take call.available)).parser.status = .eob
      · have hdone := hrun.trans (if_pos heob)
        rw [readBody_eob _ calls heob, BodyRun.verdict, BodyRun.looked, Nat.add_zero, hdone, endOf,
          if_pos heob, Verdict.after, Nat.add_zero, List.append_nil]
      · have hpend := hrun.trans (if_neg heob)
        have hn : (s.take n).length = n := by
          rw [List.length_take]
          omega
        rw [List.take_add, Scanner.run_append_of_pending hpend, hn,
          ih (henc'.trans henc) heob]

/-- A call that finds the whole stream and has room for it stops only at an end. -/
theorem parseChunked_all {bufSize n : Nat} {p : BasicBodyParser} {buf cs : List UInt8}
    (hroom : buf.length + cs.length < bufSize)
    (h : (parseChunked bufSize p buf cs).ending = .took n)
    (hst : (parseChunked bufSize p buf cs).parser.status ≠ .eob) : n = cs.length := by
  induction cs generalizing p buf n with
  | nil => exact (ParseEnd.took.inj h).symm
  | cons c cs ih =>
    have hkeep := chunkedChar_keeps p c
    rw [List.length_cons] at hroom
    rw [parseChunked] at h hst
    cases hc : chunkedChar p c with
    | next p' =>
      rw [hc] at h hst
      obtain ⟨k, hk, rfl⟩ := ParseResult.took_of_succ h
      rw [ih (by omega) hk hst, List.length_cons]
    | deliver p' =>
      have hb : bufSize > (buf ++ [c]).length := by
        rw [List.length_append, List.length_singleton]
        omega
      rw [hc] at h hst
      simp only [if_pos hb] at h hst
      obtain ⟨k, hk, rfl⟩ := ParseResult.took_of_succ h
      have hlen : (buf ++ [c]).length + cs.length < bufSize := by
        rw [List.length_append, List.length_singleton]
        omega
      rw [ih hlen hk hst, List.length_cons]
    | stop p' =>
      rw [hc] at hst hkeep
      exact absurd hkeep.2 hst
    | error =>
      rw [hc] at h
      cases h

/-- Some calls look at the whole stream, or come to an end. -/
theorem exists_calls {p : BasicBodyParser} (s : List UInt8) (henc : p.encodeType = .chunked)
    (hst : p.status ≠ .eob) : ∃ calls, s ≠ s.take (readBody p s calls).looked →
      ∀ p' out, (readBody p s calls).verdict ≠ .pending p' out := by
  refine ⟨[⟨s.length, s.length + 1⟩], ?_⟩
  have htake : s.take s.length = s := List.take_length
  cases hend : (parseStream (s.length + 1) p (s.take s.length)).ending with
  | error i =>
    intro _ p' out
    rw [readBody_error [] hst hend, BodyRun.verdict]
    nofun
  | took n =>
    intro hne p' out
    rw [readBody_took [] hst hend, BodyRun.looked_after] at hne
    rw [readBody_took [] hst hend, readBody, BodyRun.verdict_after, BodyRun.verdict]
    rw [parseStream_chunked _ _ henc hst, htake] at hend hne ⊢
    by_cases heob : (parseChunked (s.length + 1) p [] s).parser.status = .eob
    · rw [endOf, if_pos heob]
      nofun
    · have hroom : ([] : List UInt8).length + s.length < s.length + 1 := by simp
      rw [parseChunked_all hroom hend heob, List.take_of_length_le (by omega)] at hne
      exact absurd rfl hne

theorem tied_init (p : BasicBodyParser) (len : UInt32) : Tied .start (parseInit p .chunked len) :=
  .start rfl rfl

/-- What the claimed behaviour is: every way to read the stream ends as the grammar asks for,
and no size leaves its type. -/
def ReadsChunked (p : BasicBodyParser) (s : List UInt8) : Prop :=
  (∀ calls, Conforms Chunked (s.take (readBody p s calls).looked) (readBody p s calls).verdict) ∧
    chunkedStep.Clean Overflows p s

/-- The parser reads the grammar on exactly the streams without one of the characters of
`Parts`. -/
theorem readsChunked_iff (p : BasicBodyParser) (len : UInt32) (s : List UInt8) :
    ReadsChunked (parseInit p .chunked len) s ↔ grammarStep.Clean Parts .start s := by
  have henc : (parseInit p .chunked len).encodeType = .chunked := rfl
  have hst : (parseInit p .chunked len).status ≠ .eob := BodySt.noConfusion
  have hR := tied_init p len
  have hconf : ∀ calls, Conforms Chunked (s.take (readBody (parseInit p .chunked len) s calls).looked)
      (readBody (parseInit p .chunked len) s calls).verdict ↔
      grammarStep.Clean Parts .start (s.take (readBody (parseInit p .chunked len) s calls).looked) := by
    intro calls
    rw [readBody_verdict henc hst]
    exact grammar_tracks.conforms_iff hR grammar_live chunked_iff_accepts
  constructor
  · rintro ⟨hreads, -⟩
    obtain ⟨calls, hend⟩ := exists_calls s henc hst
    have hclean := (hconf calls).mp (hreads calls)
    by_cases hall : s = s.take (readBody (parseInit p .chunked len) s calls).looked
    · exact hall ▸ hclean
    · -- the run has ended, so the rest of the stream is not looked at
      have hsame := grammar_tracks.sameEnd_of_clean hR hclean
      rw [← readBody_verdict henc hst] at hsame
      have happ := hclean.append (s.drop (readBody (parseInit p .chunked len) s calls).looked) fun g out hg => by
        rw [hg] at hsame
        cases hv : (readBody (parseInit p .chunked len) s calls).verdict with
        | pending p' out' => exact hend hall p' out' hv
        | done n out' => rw [hv] at hsame; exact hsame
        | fail n => rw [hv] at hsame; exact hsame
      rwa [List.take_append_drop] at happ
  · intro hclean
    refine ⟨fun calls => (hconf calls).mpr (hclean.take _), ?_⟩
    exact grammar_tracks.clean_of_clean (fun _ _ _ => not_overflows) hR hclean

/-- CRLF CRLF, without any size, is taken for the last chunk; `80000000` for a size of -2^31. -/
theorem not_readsChunked :
    ¬ ReadsChunked (parseInit ⟨.none, .null, 0, 0⟩ .chunked 0) (crlf ++ crlf) ∧
      ¬ ReadsChunked (parseInit ⟨.none, .null, 0, 0⟩ .chunked 0)
        [0x38, 0x30, 0x30, 0x30, 0x30, 0x30, 0x30, 0x30] := by
  constructor
  · rintro ⟨hreads, -⟩
    have hread : (readBody (parseInit ⟨.none, .null, 0, 0⟩ .chunked 0) (crlf ++ crlf) [⟨4, 1⟩]) =
        ⟨⟨.chunked, .eob, 0, 0⟩, [], 4, none⟩ := by decide
    have hconf := hreads [⟨4, 1⟩]
    rw [hread] at hconf
    have hchunked : Chunked [chCr, chLf, chCr, chLf] [] := hconf.2
    have hacc := (chunked_iff_accepts _ _).mp hchunked
    rw [Scanner.Accepts, Scanner.run_fail rfl] at hacc
    cases hacc
  · rintro ⟨-, hclean⟩
    have hrun : chunkedStep.run (parseInit ⟨.none, .null, 0, 0⟩ .chunked 0)
        [0x38, 0x30, 0x30, 0x30, 0x30, 0x30, 0x30] =
        .pending ⟨.chunked, .chunkHeaderStart, 0x08000000, 0⟩ [] := by rfl
    have hlast : chunkedStep.Clean Overflows ⟨.chunked, .chunkHeaderStart, 0x08000000, 0⟩ [0x30] :=
      Scanner.Clean.of_pending hclean hrun
    exact hlast.head ⟨rfl, by decide, by decide⟩

end MiMic.Http
