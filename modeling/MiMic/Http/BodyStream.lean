import MiMic.Http.ChunkedBody

/-!
# Reading a body call by call

A caller of `NyLPC_cHttpBodyParser_parseStream` reads until a call succeeds without a byte. Each
call looks at what the socket has at that moment and takes it from the socket as far as the
parser came.
-/
namespace MiMic.Http

open Verif

/-- How a call of `NyLPC_cHttpBodyParser_parseStream` ends: `TRUE` with the bytes in the buffer
and the number of those taken from the stream, or `FALSE` for want of data or for an error. -/
inductive StreamCall
  | read (buf : List UInt8) (p : BasicBodyParser) (n : Nat)
  | noData
  | error

/-- `NyLPC_cHttpBodyParser_parseStream` on the unread stream `s`. -/
def streamCall (p : BasicBodyParser) (s : List UInt8) (call : ReadCall) : StreamCall :=
  if p.status = .eob then .read [] p 0
  else if s.take call.available = [] then .noData
  else
    let r := parseStream call.bufSize p (s.take call.available)
    match r.ending with
    | .took n => .read r.buf r.parser n
    | .error _ => .error

inductive ReadEnd
  | running | ended | noData | error
deriving DecidableEq, Repr

/-- What the calls have returned, how many bytes they have taken, and how the last one ended. -/
structure Reading where
  body : List UInt8
  taken : Nat
  ending : ReadEnd
deriving DecidableEq, Repr

/-- The loop of a caller, as around `NyLPC_cModUrl_readBody`. -/
def readLoop : BasicBodyParser → List UInt8 → List ReadCall → Reading
  | _, _, [] => ⟨[], 0, .running⟩
  | p, s, call :: calls =>
      match streamCall p s call with
      | .noData => ⟨[], 0, .noData⟩
      | .error => ⟨[], 0, .error⟩
      | .read [] _ n => ⟨[], n, .ended⟩
      | .read (b :: bs) p' n =>
          let r := readLoop p' (s.drop n) calls
          ⟨b :: bs ++ r.body, n + r.taken, r.ending⟩

/-- A body as it is sent: of a given length, or in chunks. -/
inductive HttpBody
  | plain (data : List UInt8) (fits : data.length < 2 ^ 32)
  | chunked (enc data : List UInt8) (valid : Chunked enc data)

namespace HttpBody

def data : HttpBody → List UInt8
  | plain data _ => data
  | chunked _ data _ => data

/-- The bytes that carry it. -/
def enc : HttpBody → List UInt8
  | plain data _ => data
  | chunked enc _ _ => enc

/-- The parser behind the header of its message. -/
def init (p : BasicBodyParser) : HttpBody → BasicBodyParser
  | plain data _ => parseInit p .none (UInt32.ofNat data.length)
  | chunked _ _ _ => parseInit p .chunked 0

/-- The data among the first `k` bytes of the encoding. -/
def dataIn (k : Nat) : HttpBody → List UInt8
  | plain data _ => data.take k
  | chunked enc _ _ =>
      match grammarStep.run .start (enc.take k) with
      | .pending _ out => out
      | .done _ out => out
      | .fail _ => []

/-- The semicolon behind a chunk size. -/
def IsExtension : GrammarSt → UInt8 → Prop
  | .size _, c => c = chSemicolon
  | _, _ => False

/-- No chunk has an extension. -/
def NoExtension : HttpBody → Prop
  | plain _ _ => True
  | chunked enc _ _ => grammarStep.Clean IsExtension .start enc

end HttpBody

/-- What is asked of the calls that read a body, whatever stands behind it on the stream: they
return its bytes in order, a success without a byte stands at its end only and comes after so many
calls as it has bytes, nothing behind it is taken, and only missing data makes a call fail. -/
structure ReadsBody (b : HttpBody) (p : BasicBodyParser) (rest : List UInt8) (calls : List ReadCall) :
    Prop where
  inOrder : (readLoop (b.init p) (b.enc ++ rest) calls).body <+: b.data
  whole : (readLoop (b.init p) (b.enc ++ rest) calls).ending = .ended →
    (readLoop (b.init p) (b.enc ++ rest) calls).body = b.data ∧
      (readLoop (b.init p) (b.enc ++ rest) calls).taken = b.enc.length
  ends : (readLoop (b.init p) (b.enc ++ rest) calls).ending = .running → calls.length ≤ b.data.length
  within : (readLoop (b.init p) (b.enc ++ rest) calls).taken ≤ b.enc.length
  noError : (readLoop (b.init p) (b.enc ++ rest) calls).ending ≠ .error
  noData : (readLoop (b.init p) (b.enc ++ rest) calls).ending = .noData →
    (readLoop (b.init p) (b.enc ++ rest) calls).taken < b.enc.length

/-- How many bytes a call finds at the position `k`. -/
def found (b : HttpBody) (rest : List UInt8) (k : Nat) (call : ReadCall) : Nat :=
  min call.available ((b.enc ++ rest).length - k)

/-- A call at the position `k` finds a byte of the data or the end of the body, if it finds
anything of it; for an empty body of length 0 it finds a byte of what comes behind. -/
def Brings (b : HttpBody) (rest : List UInt8) (k : Nat) (call : ReadCall) : Prop :=
  if k < b.enc.length then
    found b rest k call = 0 ∨ b.enc.length ≤ k + found b rest k call ∨
      b.dataIn k ≠ b.dataIn (k + found b rest k call)
  else 0 < k ∨ 0 < found b rest k call

/-- All calls of a run do. -/
def AllBring (b : HttpBody) (rest : List UInt8) : BasicBodyParser → Nat → List ReadCall → Prop
  | _, _, [] => True
  | p, k, call :: calls =>
      Brings b rest k call ∧
        match streamCall p ((b.enc ++ rest).drop k) call with
        | .read (_ :: _) p' n => AllBring b rest p' (k + n) calls
        | _ => True

/-- What is asked of the calls from the position `k` on. -/
structure ReadsFrom (b : HttpBody) (k : Nat) (r : Reading) : Prop where
  inOrder : b.dataIn k ++ r.body <+: b.data
  whole : r.ending = .ended → b.dataIn k ++ r.body = b.data ∧ k + r.taken = b.enc.length
  within : k + r.taken ≤ b.enc.length
  noError : r.ending ≠ .error
  noData : r.ending = .noData → k + r.taken < b.enc.length

/-- How a parser follows a body: `At p k` says that it has come to the position `k`. -/
structure Follows (b : HttpBody) (rest : List UInt8) (At : BasicBodyParser → Nat → Prop) : Prop where
  le : ∀ {p k}, At p k → k ≤ b.enc.length
  eob : ∀ {p k}, At p k → (p.status = .eob ↔ k = b.enc.length ∧ 0 < k)
  whole : b.dataIn b.enc.length = b.data
  mono : ∀ {j k}, j ≤ k → k ≤ b.enc.length → b.dataIn j <+: b.dataIn k
  step : ∀ {p k} {call : ReadCall}, At p k → p.status ≠ .eob → found b rest k call ≠ 0 →
    ∃ buf p' n, streamCall p ((b.enc ++ rest).drop k) call = .read buf p' n ∧
      n ≤ found b rest k call ∧ k + n ≤ b.enc.length ∧ b.dataIn (k + n) = b.dataIn k ++ buf ∧
      (buf ≠ [] → At p' (k + n)) ∧ (buf = [] → k + n = b.enc.length ∨ n = found b rest k call)

section

variable {b : HttpBody} {rest : List UInt8} {At : BasicBodyParser → Nat → Prop}

theorem streamCall_eob {p : BasicBodyParser} (s : List UInt8) (call : ReadCall)
    (h : p.status = .eob) : streamCall p s call = .read [] p 0 := by
  rw [streamCall, if_pos h]

theorem length_found (b : HttpBody) (rest : List UInt8) (k : Nat) (call : ReadCall) :
    (((b.enc ++ rest).drop k).take call.available).length = found b rest k call := by
  rw [List.length_take, List.length_drop, found]

theorem streamCall_noData {p : BasicBodyParser} {k : Nat} {call : ReadCall} (hst : p.status ≠ .eob)
    (h : found b rest k call = 0) : streamCall p ((b.enc ++ rest).drop k) call = .noData := by
  rw [← length_found] at h
  rw [streamCall, if_neg hst, if_pos (List.length_eq_zero_iff.mp h)]

/-- The first call of a run that goes on. -/
theorem readsFrom_after {k n : Nat} {buf : List UInt8} {r : Reading}
    (hdata : b.dataIn (k + n) = b.dataIn k ++ buf) :
    ReadsFrom b (k + n) r ↔ ReadsFrom b k ⟨buf ++ r.body, n + r.taken, r.ending⟩ := by
  have happ : b.dataIn k ++ (buf ++ r.body) = b.dataIn (k + n) ++ r.body := by
    rw [hdata, List.append_assoc]
  constructor
  · intro h
    refine ⟨?_, fun he => ?_, ?_, h.noError, fun he => ?_⟩
    · rw [happ]
      exact h.inOrder
    · rw [happ, ← Nat.add_assoc]
      exact h.whole he
    · rw [← Nat.add_assoc]
      exact h.within
    · rw [← Nat.add_assoc]
      exact h.noData he
  · intro h
    refine ⟨?_, fun he => ?_, ?_, h.noError, fun he => ?_⟩
    · rw [← happ]
      exact h.inOrder
    · rw [← happ, Nat.add_assoc]
      exact h.whole he
    · rw [Nat.add_assoc]
      exact h.within
    · rw [Nat.add_assoc]
      exact h.noData he

namespace Follows

theorem dataIn_prefix (hF : Follows b rest At) {k : Nat} (hk : k ≤ b.enc.length) :
    b.dataIn k <+: b.data := by
  have hall := hF.mono hk le_rfl
  rwa [hF.whole] at hall

/-- The parser stands at the end: the call succeeds at once. -/
theorem call_eob (hF : Follows b rest At) {p : BasicBodyParser} {k : Nat} {call : ReadCall}
    {calls : List ReadCall} (h : At p k) (hst : p.status = .eob) :
    ReadsFrom b k (readLoop p ((b.enc ++ rest).drop k) (call :: calls)) ↔
      AllBring b rest p k (call :: calls) := by
  obtain ⟨hk, hpos⟩ := (hF.eob h).mp hst
  have hcall := streamCall_eob ((b.enc ++ rest).drop k) call hst
  rw [readLoop, AllBring, hcall, Brings, if_neg (by omega)]
  refine iff_of_true ?_ ⟨Or.inl hpos, trivial⟩
  have hdata : b.dataIn k = b.data := by rw [hk, hF.whole]
  refine ⟨?_, fun _ => ⟨?_, hk⟩, hk.le, nofun, nofun⟩
  · rw [List.append_nil, hdata]
  · rw [List.append_nil, hdata]

/-- The call finds nothing: that is its fault only when the body is complete. -/
theorem call_noData (hF : Follows b rest At) {p : BasicBodyParser} {k : Nat} {call : ReadCall}
    {calls : List ReadCall} (h : At p k) (hst : p.status ≠ .eob) (hf : found b rest k call = 0) :
    ReadsFrom b k (readLoop p ((b.enc ++ rest).drop k) (call :: calls)) ↔
      AllBring b rest p k (call :: calls) := by
  have hle := hF.le h
  rw [readLoop, AllBring, streamCall_noData hst hf, Brings]
  by_cases hk : k < b.enc.length
  · rw [if_pos hk]
    refine iff_of_true ⟨?_, nofun, hle, nofun, fun _ => hk⟩ ⟨Or.inl hf, trivial⟩
    rw [List.append_nil]
    exact hF.dataIn_prefix hle
  · have hzero : ¬ 0 < k := fun hpos => hst ((hF.eob h).mpr ⟨by omega, hpos⟩)
    rw [if_neg hk]
    refine iff_of_false (fun hr => hk ?_) fun hb => ?_
    · simpa using hr.noData rfl
    · exact hb.1.elim hzero fun hpos => by omega

/-- The call takes bytes and returns none: right at the end of the body only. -/
theorem call_empty (hF : Follows b rest At) {p p' : BasicBodyParser} {k n : Nat} {call : ReadCall}
    {calls : List ReadCall} (hf : found b rest k call ≠ 0)
    (hcall : streamCall p ((b.enc ++ rest).drop k) call = .read [] p' n)
    (hn : n ≤ found b rest k call) (hle : k + n ≤ b.enc.length)
    (hdata : b.dataIn (k + n) = b.dataIn k ++ [])
    (hquiet : k + n = b.enc.length ∨ n = found b rest k call) :
    ReadsFrom b k (readLoop p ((b.enc ++ rest).drop k) (call :: calls)) ↔
      AllBring b rest p k (call :: calls) := by
  rw [List.append_nil] at hdata
  rw [readLoop, AllBring, hcall, Brings]
  by_cases hend : k + n = b.enc.length
  · have hwhole : b.dataIn k = b.data := by rw [← hdata, hend, hF.whole]
    refine iff_of_true ⟨?_, fun _ => ⟨?_, hend⟩, hle, nofun, nofun⟩ ⟨?_, trivial⟩
    · rw [List.append_nil, hwhole]
    · rw [List.append_nil, hwhole]
    · split
      · exact Or.inr (Or.inl (by omega))
      · exact Or.inr (Nat.pos_of_ne_zero hf)
  · have hall := hquiet.resolve_left hend
    rw [if_pos (by omega), ← hall, hdata]
    refine iff_of_false (fun hr => hend (hr.whole rfl).2) ?_
    rintro ⟨hz | hb | hd, -⟩
    · exact hf (hall ▸ hz)
    · omega
    · exact hd rfl

/-- The calls do what is asked of them exactly when each of them finds what it needs. -/
theorem readsFrom_iff (hF : Follows b rest At) {p : BasicBodyParser} {k : Nat}
    (calls : List ReadCall) (h : At p k) :
    ReadsFrom b k (readLoop p ((b.enc ++ rest).drop k) calls) ↔ AllBring b rest p k calls := by
  induction calls generalizing p k with
  | nil =>
    have hpre := hF.dataIn_prefix (hF.le h)
    refine iff_of_true ⟨?_, nofun, hF.le h, nofun, nofun⟩ trivial
    rw [readLoop, List.append_nil]
    exact hpre
  | cons call calls ih =>
    by_cases hst : p.status = .eob
    · exact hF.call_eob h hst
    by_cases hf : found b rest k call = 0
    · exact hF.call_noData h hst hf
    obtain ⟨buf, p', n, hcall, hn, hle, hdata, hat, hquiet⟩ := hF.step h hst hf
    cases buf with
    | nil => exact hF.call_empty hf hcall hn hle hdata (hquiet rfl)
    | cons c cs =>
      have hrest := ih (hat (List.cons_ne_nil c cs))
      have hbrings : Brings b rest k call := by
        rw [Brings]
        split
        · refine Or.inr ?_
          by_cases hb : b.enc.length ≤ k + found b rest k call
          · exact Or.inl hb
          · refine Or.inr fun he => ?_
            have hmono := (hF.mono (Nat.add_le_add_left hn k) (by omega)).length_le
            rw [hdata, ← he, List.length_append, List.length_cons] at hmono
            omega
        · exact Or.inr (Nat.pos_of_ne_zero hf)
      rw [← List.drop_drop, readsFrom_after hdata] at hrest
      simp only [readLoop, AllBring, hcall]
      exact hrest.trans (and_iff_right hbrings).symm

end Follows

end

/-- A call takes bytes of the body only, and counts them. -/
structure TakesPlain (p : BasicBodyParser) (buf cs : List UInt8) (r : ParseResult) (n : Nat) : Prop where
  ending : r.ending = .took n
  found : n ≤ cs.length
  within : n ≤ p.contentLength.toNat
  buf : r.buf = buf ++ cs.take n
  encodeType : r.parser.encodeType = p.encodeType
  left : r.parser.contentLength.toNat = p.contentLength.toNat - n
  status : r.parser.status = if p.contentLength.toNat = n then .eob else p.status
  moves : n = 0 → cs = [] ∨ p.contentLength.toNat = 0

theorem endPlain_takes (p : BasicBodyParser) (buf : List UInt8) {cs : List UInt8}
    (h : cs = [] ∨ p.contentLength.toNat = 0) : TakesPlain p buf cs (endPlain p buf 0) 0 := by
  by_cases hz : p.contentLength = 0
  · have hnat : p.contentLength.toNat = 0 := congrArg UInt32.toNat hz
    rw [endPlain, if_pos hz]
    exact ⟨rfl, Nat.zero_le _, Nat.zero_le _, (List.append_nil buf).symm, rfl, rfl,
      (if_pos hnat).symm, fun _ => h⟩
  · have hnat : p.contentLength.toNat ≠ 0 := fun hc => hz (UInt32.toNat_inj.mp hc)
    rw [endPlain, if_neg hz]
    exact ⟨rfl, Nat.zero_le _, Nat.zero_le _, (List.append_nil buf).symm, rfl, rfl,
      (if_neg hnat).symm, fun _ => h⟩

theorem parsePlain_takes (bufSize : Nat) (p : BasicBodyParser) (buf cs : List UInt8) :
    ∃ n, TakesPlain p buf cs (parsePlain bufSize p buf cs) n := by
  induction cs generalizing p buf with
  | nil => exact ⟨0, endPlain_takes p buf (Or.inl rfl)⟩
  | cons c cs ih =>
    rw [parsePlain]
    by_cases hpos : p.contentLength > 0
    · have hnat : 0 < p.contentLength.toNat := UInt32.lt_iff_toNat_lt.mp hpos
      have hone : (p.contentLength - 1).toNat = p.contentLength.toNat - 1 :=
        UInt32.toNat_sub_of_le _ _ (UInt32.le_iff_toNat_le.mpr hnat)
      rw [if_pos hpos]
      dsimp only
      split
      · obtain ⟨n, h⟩ := ih { p with contentLength := p.contentLength - 1 } (buf ++ [c])
        have hwithin := h.within
        have hleft := h.left
        have hstatus := h.status
        simp only [hone] at hwithin hleft hstatus
        refine ⟨n + 1, ?_, Nat.succ_le_succ h.found, by omega, ?_, h.encodeType, ?_, ?_, fun h => absurd h (Nat.succ_ne_zero _)⟩
        · simp only [ParseResult.succ, h.ending, ParseEnd.succ]
        · rw [List.take_succ_cons]
          exact h.buf.trans (List.append_assoc ..)
        · exact hleft.trans (by omega)
        · refine hstatus.trans ?_
          by_cases hall : p.contentLength.toNat = n + 1
          · rw [if_pos (by omega), if_pos hall]
          · rw [if_neg (by omega), if_neg hall]
      · rw [endPlain]
        refine ⟨1, rfl, by simp, hnat, by simp, ?_, ?_, ?_, fun h => absurd h (Nat.succ_ne_zero _)⟩
        · split <;> rfl
        · split <;> exact hone
        · by_cases hall : p.contentLength.toNat = 1
          · have hz : p.contentLength - 1 = 0 := UInt32.toNat_inj.mp (by rw [hone, hall]; rfl)
            rw [if_pos hall]
            simp [hz]
          · have hz : p.contentLength - 1 ≠ 0 := fun hc => by
              have := congrArg UInt32.toNat hc
              rw [hone] at this
              have hzero : (0 : UInt32).toNat = 0 := rfl
              omega
            rw [if_neg hall]
            simp [hz]
    · have hz : p.contentLength.toNat = 0 :=
        Nat.eq_zero_of_not_pos fun hp => hpos (UInt32.lt_iff_toNat_lt.mpr hp)
      rw [if_neg hpos]
      exact ⟨0, endPlain_takes p buf (Or.inr hz)⟩

/-- A call takes no more than it finds. -/
theorem parseStream_took {bufSize n : Nat} {p : BasicBodyParser} {rx : List UInt8}
    (h : (parseStream bufSize p rx).ending = .took n) : n ≤ rx.length := by
  by_cases hst : p.status = .eob
  · rw [parseStream, if_pos hst] at h
    cases h
    exact Nat.zero_le _
  cases henc : p.encodeType with
  | chunked =>
    rw [parseStream_chunked _ _ henc hst] at h
    obtain ⟨-, -, hle, -⟩ := parseChunked_took hst h
    exact hle
  | none =>
    rw [parseStream, if_neg hst, parseChar, henc] at h
    dsimp only at h
    split at h
    · cases h
    · obtain ⟨m, ht⟩ := parsePlain_takes bufSize p [] rx
      obtain rfl := ParseEnd.took.inj (ht.ending.symm.trans h)
      exact ht.found

theorem streamCall_took {p p' : BasicBodyParser} {s buf : List UInt8} {call : ReadCall} {n : Nat}
    (h : streamCall p s call = .read buf p' n) : n ≤ s.length := by
  rw [streamCall] at h
  split at h
  · cases h
    exact Nat.zero_le _
  split at h
  · cases h
  · cases hend : (parseStream call.bufSize p (s.take call.available)).ending with
    | error i =>
      simp only [hend] at h
      cases h
    | took m =>
      simp only [hend] at h
      cases h
      exact (parseStream_took hend).trans (List.length_take_le' ..)

theorem streamCall_chunked {p : BasicBodyParser} {s : List UInt8} {call : ReadCall}
    (henc : p.encodeType = .chunked) (hst : p.status ≠ .eob) (hne : s.take call.available ≠ []) :
    streamCall p s call = match (parseChunked call.bufSize p [] (s.take call.available)).ending with
      | .took n =>
          .read (parseChunked call.bufSize p [] (s.take call.available)).buf
            (parseChunked call.bufSize p [] (s.take call.available)).parser n
      | .error _ => .error := by
  rw [streamCall, if_neg hst, if_neg hne, parseStream_chunked _ _ henc hst]

/-- The parser has `data.length - k` bytes to come. -/
structure PlainAt (data : List UInt8) (p : BasicBodyParser) (k : Nat) : Prop where
  encodeType : p.encodeType = .none
  le : k ≤ data.length
  left : p.contentLength.toNat = data.length - k
  status : p.status = if k = data.length ∧ 0 < k then .eob else .body

theorem plain_follows (data : List UInt8) (fits : data.length < 2 ^ 32) (rest : List UInt8) :
    Follows (.plain data fits) rest (PlainAt data) where
  le h := h.le
  eob h := by
    rw [h.status]
    split
    · next hend => exact iff_of_true rfl hend
    · next hend => exact iff_of_false BodySt.noConfusion hend
  whole := List.take_length
  mono hjk _ := List.take_prefix_take_left hjk
  step := by
    intro p k call h hst hf
    have hbody : ¬ (k = data.length ∧ 0 < k) := fun hend => hst (by rw [h.status, if_pos hend])
    have hstatus : p.status = .body := by rw [h.status, if_neg hbody]
    have hlen := length_found (.plain data fits) rest k call
    have hne : ((data ++ rest).drop k).take call.available ≠ [] := by
      intro hnil
      exact hf (by rw [← hlen]; exact congrArg List.length hnil)
    obtain ⟨n, ht⟩ := parsePlain_takes call.bufSize p [] (((data ++ rest).drop k).take call.available)
    have hcall : streamCall p ((data ++ rest).drop k) call = .read
        (parsePlain call.bufSize p [] (((data ++ rest).drop k).take call.available)).buf
        (parsePlain call.bufSize p [] (((data ++ rest).drop k).take call.available)).parser n := by
      rw [streamCall, if_neg hst, if_neg hne, parseStream, if_neg hst, parseChar, h.encodeType]
      simp only [hstatus, ne_eq, not_true_eq_false, if_false, ht.ending]
    have hn : n ≤ found (.plain data fits) rest k call := ht.found.trans hlen.le
    have hle : k + n ≤ data.length := by
      have := ht.within
      have := h.left
      have := h.le
      omega
    have hbuf : (((data ++ rest).drop k).take call.available).take n = (data.drop k).take n := by
      have havail := ht.found
      rw [List.length_take] at havail
      rw [List.take_take, Nat.min_eq_left (by omega), List.drop_append_of_le_length h.le,
        List.take_append_of_le_length (by rw [List.length_drop]; omega)]
    refine ⟨_, _, n, hcall, hn, hle, ?_, fun hne' => ?_, fun hnil => Or.inl ?_⟩
    · rw [ht.buf, List.nil_append, hbuf]
      exact List.take_add
    · rw [ht.buf, List.nil_append] at hne'
      have hpos : 0 < n := Nat.pos_of_ne_zero fun hz => hne' (by rw [hz, List.take_zero])
      refine ⟨ht.encodeType.trans h.encodeType, hle, ?_, ?_⟩
      · rw [ht.left, h.left]
        omega
      · rw [ht.status, h.left, hstatus]
        by_cases hend : k + n = data.length
        · rw [if_pos (by omega), if_pos ⟨hend, by omega⟩]
        · have := h.le
          rw [if_neg (by omega), if_neg fun hc => hend hc.1]
    · rw [ht.buf, List.nil_append] at hnil
      have hz : n = 0 := by
        have hlen' := congrArg List.length hnil
        rw [List.length_take, Nat.min_eq_left ht.found] at hlen'
        exact hlen'
      have hleft := (ht.moves hz).resolve_left hne
      rw [h.left] at hleft
      show k + n = data.length
      omega

/-- A call that returns nothing, short of the end, has looked at all that it found. -/
theorem parseChunked_quiet {bufSize n : Nat} {p : BasicBodyParser} {buf cs : List UInt8}
    (h : (parseChunked bufSize p buf cs).ending = .took n)
    (hbuf : (parseChunked bufSize p buf cs).buf = buf)
    (hst : (parseChunked bufSize p buf cs).parser.status ≠ .eob) : n = cs.length := by
  induction cs generalizing p n with
  | nil => exact (ParseEnd.took.inj h).symm
  | cons c cs ih =>
    have hkeep := chunkedChar_keeps p c
    rw [parseChunked] at h hbuf hst
    cases hc : chunkedChar p c with
    | next p' =>
      rw [hc] at h hbuf hst
      obtain ⟨k, hk, rfl⟩ := ParseResult.took_of_succ h
      rw [ih hk hbuf hst, List.length_cons]
    | deliver p' =>
      rw [hc] at h hbuf hkeep
      dsimp only at h hbuf
      split at h
      · next hb =>
        rw [if_pos hb] at hbuf
        obtain ⟨k, hk, rfl⟩ := ParseResult.took_of_succ h
        obtain ⟨out, hgrown, -⟩ := parseChunked_took hkeep.2 hk
        have hsame : buf = buf ++ [c] ++ out := hbuf.symm.trans hgrown
        have hlen := congrArg List.length hsame
        simp at hlen
      · next hb =>
        rw [if_neg hb] at hbuf
        have hlen := congrArg List.length hbuf
        simp at hlen
    | stop p' =>
      rw [hc] at hst hkeep
      exact absurd hkeep.2 hst
    | error =>
      rw [hc] at h
      cases h

theorem accepts_chunked {enc data : List UInt8} (valid : Chunked enc data) (p₀ : BasicBodyParser)
    (hclean : grammarStep.Clean Parts .start enc) :
    chunkedStep.Accepts (parseInit p₀ .chunked 0) enc data := by
  have hrun : grammarStep.run .start enc = .done enc.length data := (chunked_iff_accepts enc data).mp valid
  have hsame := grammar_tracks.sameEnd_of_clean (tied_init p₀ 0) hclean
  rw [hrun] at hsame
  cases hr : chunkedStep.run (parseInit p₀ .chunked 0) enc with
  | pending q o => rw [hr] at hsame; exact hsame.elim
  | fail n => rw [hr] at hsame; exact hsame.elim
  | done n o =>
    rw [hr] at hsame
    obtain ⟨rfl, rfl⟩ := hsame
    exact hr

section

variable {enc data : List UInt8} (valid : Chunked enc data) (p₀ : BasicBodyParser)

/-- The grammar refuses no byte of the body. -/
theorem grammar_goes {enc data : List UInt8} (valid : Chunked enc data) (k i : Nat) :
    grammarStep.run .start (enc.take k) ≠ .fail i := by
  intro hi
  have hall : grammarStep.run .start (enc.take k ++ enc.drop k) = .fail i :=
    Scanner.run_append_of_fail hi
  rw [List.take_append_drop, (chunked_iff_accepts enc data).mp valid] at hall
  cases hall

/-- As far as the parser goes it goes with the grammar. -/
theorem clean_of_run {enc data : List UInt8} (valid : Chunked enc data) (p₀ : BasicBodyParser)
    {k : Nat}
    (h : ∀ i, chunkedStep.run (parseInit p₀ .chunked 0) (enc.take k) ≠ .fail i) :
    grammarStep.Clean Parts .start (enc.take k) := by
  by_contra hno
  obtain ⟨i, hi⟩ := grammar_tracks.fails_of_not_clean (tied_init p₀ 0) (grammar_goes valid k) hno
  exact h i hi

/-- What the parser has returned is the data up to its position. -/
theorem dataIn_chunked {k : Nat} {q : BasicBodyParser}
    {o : List UInt8} (h : chunkedStep.run (parseInit p₀ .chunked 0) (enc.take k) = .pending q o) :
    (HttpBody.chunked enc data valid).dataIn k = o := by
  have hclean := clean_of_run valid p₀ (k := k) fun i hi => nomatch hi.symm.trans h
  have hsame := grammar_tracks.sameEnd_of_clean (tied_init p₀ 0) hclean
  rw [h] at hsame
  rw [HttpBody.dataIn]
  cases hr : grammarStep.run .start (enc.take k) with
  | pending g o' =>
    rw [hr] at hsame
    exact hsame.2
  | done n o' => rw [hr] at hsame; exact hsame.elim
  | fail n => rw [hr] at hsame; exact hsame.elim

theorem dataIn_whole : (HttpBody.chunked enc data valid).dataIn enc.length = data := by
  have hrun : grammarStep.run .start enc = .done enc.length data := (chunked_iff_accepts enc data).mp valid
  rw [HttpBody.dataIn, List.take_length, hrun]

theorem dataIn_mono {j k : Nat} (hjk : j ≤ k) (hk : k ≤ enc.length) :
    (HttpBody.chunked enc data valid).dataIn j <+: (HttpBody.chunked enc data valid).dataIn k := by
  have hacc : grammarStep.Accepts .start enc data := (chunked_iff_accepts enc data).mp valid
  rcases Nat.lt_or_ge j enc.length with hj | hj
  · obtain ⟨g, o, o', hrun, hout, hrest⟩ := hacc.take hj
    have hdata : (HttpBody.chunked enc data valid).dataIn j = o := by
      rw [HttpBody.dataIn, hrun]
    rw [hdata]
    rcases Nat.lt_or_ge k enc.length with hk' | hk'
    · obtain ⟨g', o₂, o₂', hrun₂, -, -⟩ := hacc.take hk'
      have hdata₂ : (HttpBody.chunked enc data valid).dataIn k = o₂ := by
        rw [HttpBody.dataIn, hrun₂]
      have hsplit : enc.take k = enc.take j ++ (enc.drop j).take (k - j) := by
        rw [← List.take_add, Nat.add_sub_cancel' hjk]
      rw [hsplit, Scanner.run_append_of_pending hrun] at hrun₂
      rw [hdata₂]
      cases hr : grammarStep.run g ((enc.drop j).take (k - j)) with
      | pending g₂ o₃ =>
        rw [hr] at hrun₂
        obtain ⟨-, rfl⟩ := Verdict.pending.inj hrun₂
        exact List.prefix_append ..
      | done n o₃ => rw [hr] at hrun₂; cases hrun₂
      | fail n => rw [hr] at hrun₂; cases hrun₂
    · obtain rfl : k = enc.length := Nat.le_antisymm hk hk'
      rw [dataIn_whole, hout]
      exact List.prefix_append ..
  · obtain rfl : j = k := Nat.le_antisymm hjk (hk.trans hj)
    exact List.prefix_refl _

/-- The parser has read `k` bytes, or all of them. -/
structure ChunkedAt (p : BasicBodyParser) (k : Nat) : Prop where
  encodeType : p.encodeType = .chunked
  at_end : p.status = .eob → k = enc.length
  before : p.status ≠ .eob → k < enc.length ∧
    chunkedStep.run (parseInit p₀ .chunked 0) (enc.take k) =
      .pending p ((HttpBody.chunked enc data valid).dataIn k)

/-- What a call that does not end in an error makes of a valid rest. -/
theorem chunked_call (hclean : grammarStep.Clean Parts .start enc) (rest : List UInt8)
    (bufSize a : Nat) {p : BasicBodyParser} {k : Nat} (h : ChunkedAt valid p₀ p k) (hst : p.status ≠ .eob) :
    ∃ n, (parseChunked bufSize p [] (((enc ++ rest).drop k).take a)).ending = .took n ∧
      n ≤ (((enc ++ rest).drop k).take a).length ∧ k + n ≤ enc.length ∧
      (HttpBody.chunked enc data valid).dataIn (k + n) =
        (HttpBody.chunked enc data valid).dataIn k ++
          (parseChunked bufSize p [] (((enc ++ rest).drop k).take a)).buf ∧
      ChunkedAt valid p₀ (parseChunked bufSize p [] (((enc ++ rest).drop k).take a)).parser (k + n) := by
  obtain ⟨hk, hrun⟩ := h.before hst
  obtain ⟨q, o, o', hq, hout, hrest⟩ := (accepts_chunked valid p₀ hclean).take hk
  obtain ⟨rfl, rfl⟩ := Verdict.pending.inj (hrun.symm.trans hq)
  have hdrop : (enc ++ rest).drop k = enc.drop k ++ rest := List.drop_append_of_le_length hk.le
  have hdone : chunkedStep.run p ((enc ++ rest).drop k) = .done (enc.length - k) o' := by
    rw [hdrop, Scanner.run_append_of_done hrest, List.length_drop]
  generalize hs : (enc ++ rest).drop k = s at hdone hdrop
  cases hend : (parseChunked bufSize p [] (s.take a)).ending with
  | error i =>
    have hfail : chunkedStep.run p (s.take a ++ s.drop a) = .fail i :=
      Scanner.run_append_of_fail (parseChunked_error hend)
    rw [List.take_append_drop, hdone] at hfail
    cases hfail
  | took n =>
    obtain ⟨out, hbuf, hle, henc, hr⟩ := parseChunked_took hst hend
    have hlen := hle
    rw [List.length_take] at hlen
    rw [List.take_take, Nat.min_eq_left (by omega)] at hr
    rw [List.nil_append] at hbuf
    refine ⟨n, rfl, hle, ?_⟩
    rw [hbuf]
    by_cases heob : (parseChunked bufSize p [] (s.take a)).parser.status = .eob
    · rw [endOf, if_pos heob] at hr
      have hall : chunkedStep.run p (s.take n ++ s.drop n) = .done n out :=
        Scanner.run_append_of_done hr
      rw [List.take_append_drop, hdone] at hall
      obtain ⟨rfl, rfl⟩ := Verdict.done.inj hall
      have hkn : k + (enc.length - k) = enc.length := by omega
      rw [hkn, dataIn_whole]
      exact ⟨le_rfl, hout, henc.trans h.encodeType, fun _ => rfl, fun hno => absurd heob hno⟩
    · rw [endOf, if_neg heob] at hr
      generalize (parseChunked bufSize p [] (s.take a)).parser = p' at hr heob henc
      have hshort : k + n < enc.length := by
        by_contra hc
        rw [hdrop, List.take_append, List.take_of_length_le (by rw [List.length_drop]; omega),
          Scanner.run_append_of_done hrest] at hr
        cases hr
      rw [hdrop, List.take_append_of_le_length (by rw [List.length_drop]; omega)] at hr
      have hnext : chunkedStep.run (parseInit p₀ .chunked 0) (enc.take (k + n)) =
          .pending p' ((HttpBody.chunked enc data valid).dataIn k ++ out) := by
        rw [List.take_add, Scanner.run_append_of_pending hrun, hr]
        rfl
      have hdata := dataIn_chunked valid p₀ hnext
      exact ⟨hshort.le, hdata, henc.trans h.encodeType, fun he => absurd he heob,
        fun _ => ⟨hshort, hdata ▸ hnext⟩⟩

theorem chunked_follows (hclean : grammarStep.Clean Parts .start enc) (rest : List UInt8) :
    Follows (.chunked enc data valid) rest (ChunkedAt valid p₀) where
  le {p k} h := by
    by_cases hst : p.status = .eob
    · exact (h.at_end hst).le
    · exact (h.before hst).1.le
  eob {p k} h := by
    have hpos : 0 < enc.length :=
      List.length_pos_iff.mpr (accepts_chunked valid p₀ hclean).ne_nil
    refine ⟨fun hst => ?_, fun hk => ?_⟩
    · have hk := h.at_end hst
      exact ⟨hk, hk ▸ hpos⟩
    · by_contra hst
      exact absurd hk.1 (h.before hst).1.ne
  whole := dataIn_whole valid
  mono := dataIn_mono valid
  step {p k call} h hst hf := by
    have hlen := length_found (.chunked enc data valid) rest k call
    have hne : ((enc ++ rest).drop k).take call.available ≠ [] := by
      intro hnil
      exact hf (by rw [← hlen]; exact congrArg List.length hnil)
    obtain ⟨n, hend, hle, hkn, hdata, hat⟩ :=
      chunked_call valid p₀ hclean rest call.bufSize call.available h hst
    refine ⟨_, _, n, ?_, hle.trans hlen.le, hkn, hdata, fun _ => hat, fun hnil => ?_⟩
    · show streamCall p ((enc ++ rest).drop k) call = _
      rw [streamCall_chunked h.encodeType hst hne]
      simp only [hend]
    · by_cases heob : (parseChunked call.bufSize p []
          (((enc ++ rest).drop k).take call.available)).parser.status = .eob
      · exact Or.inl (hat.at_end heob)
      · exact Or.inr ((parseChunked_quiet hend hnil heob).trans hlen)

end

/-- Of the characters where parser and grammar part, a valid body has only that semicolon. -/
theorem parts_iff_isExtension {g : GrammarSt} {c : UInt8} (hgoes : grammarStep g c ≠ .fail) :
    Parts g c ↔ HttpBody.IsExtension g c := by
  cases g with
  | start =>
    refine iff_of_false (fun hp => hgoes ?_) id
    obtain rfl | rfl | rfl := hp <;> rfl
  | size v =>
    constructor
    · rintro (rfl | hc | rfl | ⟨hx, hover⟩)
      · exact absurd rfl hgoes
      · exact hc
      · exact absurd rfl hgoes
      · refine absurd ?_ hgoes
        rw [grammarStep, if_pos hx, sizeStep, if_pos]
        rw [maxChunkSize]
        omega
    · exact fun hc => Or.inr (Or.inl hc)
  | sizeCr v => exact iff_of_false (fun hp => hgoes (if_neg hp)) id
  | ext v => exact Iff.rfl
  | extCr v => exact Iff.rfl
  | data k => exact Iff.rfl
  | dataEnd =>
    refine iff_of_false (fun hp => hgoes ?_) id
    obtain rfl := hp
    rfl
  | dataCr =>
    refine iff_of_false (fun hp => hgoes ?_) id
    obtain rfl := hp
    rfl
  | lastEnd =>
    refine iff_of_false (fun hp => hgoes ?_) id
    obtain rfl := hp
    rfl
  | lastCr =>
    refine iff_of_false (fun hp => hgoes ?_) id
    obtain rfl := hp
    rfl

theorem noExtension_iff {enc data : List UInt8} (valid : Chunked enc data) :
    (HttpBody.chunked enc data valid).NoExtension ↔ grammarStep.Clean Parts .start enc := by
  have hacc : grammarStep.Accepts .start enc data := (chunked_iff_accepts enc data).mp valid
  exact ⟨.of_accepts hacc fun g c hg hp => (parts_iff_isExtension hg).mp hp,
    .of_accepts hacc fun g c hg he => (parts_iff_isExtension hg).mpr he⟩

/-- A call that finds all of a body with an extension, and has room for it, ends in an error. -/
theorem extension_error {enc data : List UInt8} (valid : Chunked enc data) (p : BasicBodyParser)
    (rest : List UInt8) (hext : ¬ (HttpBody.chunked enc data valid).NoExtension) :
    streamCall (parseInit p .chunked 0) (enc ++ rest)
      ⟨(enc ++ rest).length, (enc ++ rest).length + 1⟩ = .error := by
  have hacc : grammarStep.Accepts .start enc data := (chunked_iff_accepts enc data).mp valid
  rw [noExtension_iff] at hext
  obtain ⟨i, hfail⟩ := grammar_tracks.fails_of_not_clean (tied_init p 0)
    (fun i hi => nomatch hi.symm.trans hacc) hext
  have hall : chunkedStep.run (parseInit p .chunked 0) (enc ++ rest) = .fail i :=
    Scanner.run_append_of_fail hfail
  have hst : (parseInit p .chunked 0).status ≠ .eob := BodySt.noConfusion
  have hne : enc ++ rest ≠ [] := fun hnil => hacc.ne_nil (List.append_eq_nil_iff.mp hnil).1
  have hroom : ([] : List UInt8).length + (enc ++ rest).length < (enc ++ rest).length + 1 := by simp
  have herr : ∃ j, (parseChunked ((enc ++ rest).length + 1) (parseInit p .chunked 0) []
      (enc ++ rest)).ending = .error j := by
    cases hend : (parseChunked ((enc ++ rest).length + 1) (parseInit p .chunked 0) []
        (enc ++ rest)).ending with
    | error j => exact ⟨j, rfl⟩
    | took n =>
      obtain ⟨out, -, -, -, hr⟩ := parseChunked_took hst hend
      by_cases heob : (parseChunked ((enc ++ rest).length + 1) (parseInit p .chunked 0) []
          (enc ++ rest)).parser.status = .eob
      · rw [endOf, if_pos heob] at hr
        have hdone : chunkedStep.run (parseInit p .chunked 0)
            ((enc ++ rest).take n ++ (enc ++ rest).drop n) = .done n out :=
          Scanner.run_append_of_done hr
        rw [List.take_append_drop, hall] at hdone
        cases hdone
      · rw [endOf, if_neg heob, parseChunked_all hroom hend heob, List.take_length, hall] at hr
        cases hr
  obtain ⟨j, hj⟩ := herr
  rw [streamCall_chunked rfl hst (by rwa [List.take_length]), List.take_length]
  simp only [hj]

theorem length_readLoop (p : BasicBodyParser) (s : List UInt8) (calls : List ReadCall)
    (h : (readLoop p s calls).ending = .running) :
    calls.length ≤ (readLoop p s calls).body.length := by
  fun_induction readLoop p s calls with
  | case1 p s => exact le_rfl
  | case2 p s call calls hc => cases h
  | case3 p s call calls hc => cases h
  | case4 p s call calls p' n hc => cases h
  | case5 p s call calls c cs p' n hc r ih =>
    have hrest : calls.length ≤ r.body.length := ih h
    rw [List.length_cons, List.length_append, List.length_cons]
    omega

theorem readsBody_iff_readsFrom (b : HttpBody) (p : BasicBodyParser) (rest : List UInt8)
    (calls : List ReadCall) (hzero : b.dataIn 0 = []) :
    ReadsBody b p rest calls ↔ ReadsFrom b 0 (readLoop (b.init p) (b.enc ++ rest) calls) := by
  constructor
  · intro h
    refine ⟨?_, fun he => ?_, ?_, h.noError, fun he => ?_⟩
    · simpa [hzero] using h.inOrder
    · simpa [hzero] using h.whole he
    · simpa using h.within
    · simpa using h.noData he
  · intro h
    have hpre : (readLoop (b.init p) (b.enc ++ rest) calls).body <+: b.data := by
      simpa [hzero] using h.inOrder
    refine ⟨hpre, fun he => ?_, fun he => ?_, ?_, h.noError, fun he => ?_⟩
    · simpa [hzero] using h.whole he
    · exact (length_readLoop _ _ _ he).trans hpre.length_le
    · simpa using h.within
    · simpa using h.noData he

theorem readsBody_iff (b : HttpBody) (p : BasicBodyParser) (rest : List UInt8)
    (calls : List ReadCall) (hext : b.NoExtension) :
    ReadsBody b p rest calls ↔ AllBring b rest (b.init p) 0 calls := by
  cases b with
  | plain data fits =>
    have hat : PlainAt data (parseInit p .none (UInt32.ofNat data.length)) 0 := by
      refine ⟨rfl, Nat.zero_le _, ?_, (if_neg fun h => lt_irrefl 0 h.2).symm⟩
      exact UInt32.toNat_ofNat_of_lt' fits
    exact (readsBody_iff_readsFrom _ p rest calls rfl).trans
      ((plain_follows data fits rest).readsFrom_iff calls hat)
  | chunked enc data valid =>
    have hclean := (noExtension_iff valid).mp hext
    have hpos : 0 < enc.length := List.length_pos_iff.mpr (accepts_chunked valid p hclean).ne_nil
    have hat : ChunkedAt valid p (parseInit p .chunked 0) 0 :=
      ⟨rfl, (fun he => nomatch he), fun _ => ⟨hpos, rfl⟩⟩
    exact (readsBody_iff_readsFrom _ p rest calls rfl).trans
      ((chunked_follows valid p hclean rest).readsFrom_iff calls hat)

/-- Every body without a chunk extension is read to its end by exactly the calls that find what
they need; a body with one is not. -/
theorem body_stream (b : HttpBody) (p : BasicBodyParser) (rest : List UInt8) :
    ((∀ calls, AllBring b rest (b.init p) 0 calls → ReadsBody b p rest calls) ↔ b.NoExtension) ∧
      ∀ calls, b.NoExtension → (ReadsBody b p rest calls ↔ AllBring b rest (b.init p) 0 calls) := by
  refine ⟨⟨fun hall => ?_, fun hext calls => (readsBody_iff b p rest calls hext).mpr⟩,
    fun calls hext => readsBody_iff b p rest calls hext⟩
  cases b with
  | plain data fits => trivial
  | chunked enc data valid =>
    by_contra hext
    have herr := extension_error valid p rest hext
    refine (hall [⟨(enc ++ rest).length, (enc ++ rest).length + 1⟩] ⟨?_, ?_⟩).noError ?_
    · have hle : (enc ++ rest).length = enc.length + rest.length := List.length_append
      rw [Brings, found]
      split
      · exact Or.inr (Or.inl (by simp [HttpBody.enc]))
      · next hz =>
        have hpos : 0 < enc.length := List.length_pos_iff.mpr ((chunked_iff_accepts enc data).mp valid).ne_nil
        exact absurd hpos hz
    · rw [List.drop_zero]
      show match streamCall (parseInit p .chunked 0) (enc ++ rest) _ with
        | .read (_ :: _) _ _ => _ | _ => True
      rw [herr]
      trivial
    · show (readLoop (parseInit p .chunked 0) (enc ++ rest) [_]).ending = .error
      rw [readLoop, herr]

/-- Three bytes in one chunk. -/
def abcChunk : HttpBody :=
  .chunked (ascii "3\r\nabc\r\n0\r\n\r\n") (ascii "abc") ((chunked_iff_accepts _ _).mpr rfl)

/-- The parser of a new connection. -/
def newParser : BasicBodyParser := ⟨.none, .null, 0, 0⟩

/-- The size line comes in a segment of its own, and the body seems to be empty; a body of length
0 is complete before the first call, which waits for data all the same. -/
theorem not_body_stream :
    ¬ ReadsBody abcChunk newParser [] [⟨3, 16⟩, ⟨10, 16⟩] ∧
      ¬ ReadsBody (.plain [] (by decide)) newParser [] [⟨1, 16⟩] := by
  refine ⟨fun h => ?_, fun h => ?_⟩
  · have hwhole := (h.whole (by decide +kernel)).1
    exact absurd hwhole (by decide +kernel)
  · exact absurd (h.noData (by decide +kernel)) (by decide +kernel)

end MiMic.Http
