import MiMic.Http.BodyStream

/-!
# Where a read of a body ends

A call of `NyLPC_cHttpBodyParser_parseStream` goes on until its buffer is full, the body has ended
or all that the socket had is used up. Where it ends is therefore a matter of the body and of what
the socket has, and can be told without the parser.
-/
namespace MiMic.Http

open Verif

namespace HttpBody

/-- From `k` on over `m` bytes of the stream, until there are `goal` bytes of data or the body has
ended. -/
def reachFrom (b : HttpBody) (goal : Nat) : Nat → Nat → Nat
  | k, 0 => k
  | k, m + 1 =>
      if goal ≤ (b.dataIn k).length ∨ b.enc.length ≤ k then k else reachFrom b goal (k + 1) m

/-- The position behind a call at `k` that finds `m` bytes. -/
def reach (b : HttpBody) (bufSize k m : Nat) : Nat :=
  b.reachFrom ((b.dataIn k).length + bufSize) k m

/-- No extension begins among the first `k` bytes. -/
def NoExtensionTo : HttpBody → Nat → Prop
  | plain _ _, _ => True
  | chunked enc _ _, k => grammarStep.Clean IsExtension .start (enc.take k)

variable {b : HttpBody} {goal k m t : Nat}

theorem le_reachFrom (b : HttpBody) (goal k m : Nat) : k ≤ b.reachFrom goal k m := by
  induction m generalizing k with
  | zero => exact le_rfl
  | succ m ih =>
    rw [reachFrom]
    split
    · exact le_rfl
    · exact (Nat.le_succ k).trans (ih (k + 1))

theorem reachFrom_le (hk : k ≤ b.enc.length) : b.reachFrom goal k m ≤ b.enc.length := by
  induction m generalizing k with
  | zero => exact hk
  | succ m ih =>
    rw [reachFrom]
    split
    · exact hk
    · next hgo =>
      rw [not_or] at hgo
      exact ih (Nat.lt_of_not_le hgo.2)

/-- Nothing is passed where nothing is found, or behind the body. -/
theorem reachFrom_self (h : m = 0 ∨ b.enc.length ≤ k) : b.reachFrom goal k m = k := by
  cases m with
  | zero => rfl
  | succ m => rw [reachFrom, if_pos (.inr (h.resolve_left (Nat.succ_ne_zero m)))]

/-- The first position where there is a reason to stop. -/
theorem reachFrom_eq (hkt : k ≤ t) (ht : t ≤ k + m) (hend : t ≤ b.enc.length)
    (hbefore : ∀ j, k ≤ j → j < t → (b.dataIn j).length < goal)
    (hstop : t = k + m ∨ t = b.enc.length ∨ goal ≤ (b.dataIn t).length) :
    b.reachFrom goal k m = t := by
  induction m generalizing k with
  | zero =>
    rw [reachFrom]
    omega
  | succ m ih =>
    rw [reachFrom]
    rcases Nat.eq_or_lt_of_le hkt with rfl | hlt
    · rw [if_pos]
      rcases hstop with h | h | h
      · omega
      · exact .inr h.ge
      · exact .inl h
    · have hgo := hbefore k le_rfl hlt
      rw [if_neg (by omega)]
      exact ih hlt (by omega) (fun j hj => hbefore j (by omega)) (by omega)

/-- A position that is passed, for there is no reason to stop up to it. -/
theorem lt_reachFrom (hkt : k ≤ t) (ht : t < k + m) (hend : t < b.enc.length)
    (hbefore : ∀ j, k ≤ j → j ≤ t → (b.dataIn j).length < goal) : t < b.reachFrom goal k m := by
  induction m generalizing k with
  | zero => omega
  | succ m ih =>
    have hgo := hbefore k le_rfl hkt
    rw [reachFrom, if_neg (by omega)]
    rcases Nat.eq_or_lt_of_le hkt with rfl | hlt
    · exact le_reachFrom b goal (k + 1) m
    · exact ih hlt (by omega) (fun j hj => hbefore j (by omega))

/-- The position of read number `i` when the socket has `available i` bytes at each. -/
def readAt (b : HttpBody) (rest : List UInt8) (bufSize : Nat) (available : Nat → Nat) : Nat → Nat
  | 0 => 0
  | i + 1 =>
      b.reach bufSize (readAt b rest bufSize available i)
        (found b rest (readAt b rest bufSize available i) ⟨available i, bufSize⟩)

theorem readAt_le (b : HttpBody) (rest : List UInt8) (bufSize : Nat) (available : Nat → Nat)
    (i : Nat) : b.readAt rest bufSize available i ≤ b.enc.length := by
  induction i with
  | zero => exact Nat.zero_le _
  | succ i ih => exact reachFrom_le ih

end HttpBody

/-- A call comes to the position `t`, with the data up to there, unless an extension stands on its
way. -/
def Lands (b : HttpBody) (At : BasicBodyParser → Nat → Prop) (k t : Nat) : StreamCall → Prop
  | .noData => False
  | .error => ¬ b.NoExtensionTo t
  | .read buf p' n =>
      k + n = t ∧ b.dataIn t = b.dataIn k ++ buf ∧ b.NoExtensionTo t ∧ (buf ≠ [] → At p' t)

/-- `At p k` says that the parser has come to the position `k`; from there a call lands where it
should. -/
structure Places (b : HttpBody) (rest : List UInt8) (At : BasicBodyParser → Nat → Prop) : Prop where
  eob : ∀ {p k}, At p k → (p.status = .eob ↔ k = b.enc.length ∧ 0 < k)
  lands : ∀ {p k} {call : ReadCall}, At p k → p.status ≠ .eob → found b rest k call ≠ 0 →
    0 < call.bufSize → Lands b At k (b.reach call.bufSize k (found b rest k call))
      (streamCall p ((b.enc ++ rest).drop k) call)

theorem parsePlain_count (bufSize : Nat) (p : BasicBodyParser) (buf cs : List UInt8)
    (hroom : buf.length < bufSize) : (parsePlain bufSize p buf cs).ending =
      .took (min cs.length (min p.contentLength.toNat (bufSize - buf.length))) := by
  induction cs generalizing p buf with
  | nil => rw [parsePlain, endPlain, List.length_nil, Nat.zero_min]
  | cons c cs ih =>
    rw [parsePlain]
    by_cases hpos : p.contentLength > 0
    · have hnat : 0 < p.contentLength.toNat := UInt32.lt_iff_toNat_lt.mp hpos
      have hone : (p.contentLength - 1).toNat = p.contentLength.toNat - 1 :=
        UInt32.toNat_sub_of_le _ _ (UInt32.le_iff_toNat_le.mpr hnat)
      have hlen : (buf ++ [c]).length = buf.length + 1 := by
        rw [List.length_append, List.length_singleton]
      rw [if_pos hpos, List.length_cons]
      dsimp only
      split
      · next hmore =>
        rw [ParseResult.succ, ih { p with contentLength := p.contentLength - 1 } (buf ++ [c]) hmore]
        simp only [hone, hlen, ParseEnd.succ]
        exact congrArg ParseEnd.took (by omega)
      · next hfull =>
        rw [hlen] at hfull
        rw [endPlain]
        exact congrArg ParseEnd.took (by omega)
    · have hz : p.contentLength.toNat = 0 :=
        Nat.eq_zero_of_not_pos fun hp => hpos (UInt32.lt_iff_toNat_lt.mpr hp)
      rw [if_neg hpos, endPlain, hz, Nat.zero_min, Nat.min_zero]

theorem plain_places (data : List UInt8) (fits : data.length < 2 ^ 32) (rest : List UInt8) :
    Places (.plain data fits) rest (PlainAt data) where
  eob := (plain_follows data fits rest).eob
  lands {p k call} h hst hf hB := by
    obtain ⟨buf, p', n, hcall, hn, hle, hdata, hat, -⟩ :=
      (plain_follows data fits rest).step h hst hf
    have hlen := length_found (.plain data fits) rest k call
    have hne : ((data ++ rest).drop k).take call.available ≠ [] := by
      intro hnil
      exact hf (by rw [← hlen]; exact congrArg List.length hnil)
    have hbody : p.status = .body := by
      have hs := h.status
      split at hs
      · exact absurd hs hst
      · exact hs
    have hcount := parsePlain_count call.bufSize p [] (((data ++ rest).drop k).take call.available) hB
    have hcall' := hcall
    rw [streamCall, if_neg hst, show (HttpBody.plain data fits).enc = data from rfl, if_neg hne,
      parseStream, if_neg hst, parseChar, h.encodeType] at hcall'
    simp only [hbody, ne_eq, not_true_eq_false, if_false, hcount] at hcall'
    obtain ⟨-, -, hnum⟩ := StreamCall.read.inj hcall'
    rw [show (((data ++ rest).drop k).take call.available).length =
      found (.plain data fits) rest k call from hlen, h.left, List.length_nil, Nat.sub_zero] at hnum
    have hk := h.le
    have htake : ∀ j ≤ data.length, ((HttpBody.plain data fits).dataIn j).length = j := by
      intro j hj
      show (data.take j).length = j
      rw [List.length_take, Nat.min_eq_left hj]
    have hreach : (HttpBody.plain data fits).reach call.bufSize k
        (found (.plain data fits) rest k call) = k + n := by
      have hle' : k + n ≤ data.length := hle
      refine HttpBody.reachFrom_eq (Nat.le_add_right k n) (by omega) hle ?_ ?_
      · intro j _ hj
        rw [htake j (by omega), htake k hk]
        omega
      · show k + n = _ ∨ k + n = data.length ∨ _
        rw [htake _ hle', htake k hk]
        omega
    rw [hcall, hreach]
    exact ⟨rfl, hdata, trivial, hat⟩

/-- How many characters a call has looked at. -/
def ParseEnd.reads : ParseEnd → Nat
  | took n => n
  | error i => i + 1

@[simp] theorem ParseEnd.reads_succ (e : ParseEnd) : e.succ.reads = e.reads + 1 := by
  cases e <;> rfl

/-- As long as a call goes on its buffer has room and the scanner waits. -/
theorem parseChunked_before {bufSize m : Nat} {p : BasicBodyParser} {buf cs : List UInt8}
    (hroom : buf.length < bufSize) (hm : m < (parseChunked bufSize p buf cs).ending.reads) :
    ∃ q o, chunkedStep.run p (cs.take m) = .pending q o ∧ buf.length + o.length < bufSize := by
  induction cs generalizing p buf m with
  | nil => exact absurd hm (Nat.not_lt_zero m)
  | cons c cs ih =>
    cases m with
    | zero => exact ⟨p, [], rfl, hroom⟩
    | succ m =>
      rw [parseChunked] at hm
      cases hc : chunkedChar p c with
      | next p' =>
        rw [hc] at hm
        obtain ⟨q, o, hrun, ho⟩ := ih hroom (Nat.lt_of_succ_lt_succ (by simpa [ParseResult.succ] using hm))
        refine ⟨q, o, ?_, ho⟩
        rw [List.take_succ_cons, Scanner.run_next (chunkedStep_eq hc), hrun]
        rfl
      | deliver p' =>
        have hs : chunkedStep p c = .next p' [c] := by rw [chunkedStep, hc]
        rw [hc] at hm
        dsimp only at hm
        split at hm
        · next hb =>
          obtain ⟨q, o, hrun, ho⟩ := ih hb (Nat.lt_of_succ_lt_succ (by simpa [ParseResult.succ] using hm))
          refine ⟨q, c :: o, ?_, ?_⟩
          · rw [List.take_succ_cons, Scanner.run_next hs, hrun]
            rfl
          · rw [List.length_append, List.length_singleton] at ho
            rw [List.length_cons]
            omega
        · exact absurd (Nat.lt_of_succ_lt_succ hm) (Nat.not_lt_zero m)
      | stop p' =>
        rw [hc] at hm
        exact absurd (Nat.lt_of_succ_lt_succ hm) (Nat.not_lt_zero m)
      | error =>
        rw [hc] at hm
        exact absurd (Nat.lt_of_succ_lt_succ hm) (Nat.not_lt_zero m)

/-- Why a call stops. -/
theorem parseChunked_stops {bufSize n : Nat} {p : BasicBodyParser} {buf cs : List UInt8}
    (h : (parseChunked bufSize p buf cs).ending = .took n) :
    n = cs.length ∨ (parseChunked bufSize p buf cs).parser.status = .eob ∨
      bufSize ≤ (parseChunked bufSize p buf cs).buf.length := by
  induction cs generalizing p buf n with
  | nil => exact .inl (ParseEnd.took.inj h).symm
  | cons c cs ih =>
    have hkeep := chunkedChar_keeps p c
    rw [parseChunked] at h ⊢
    cases hc : chunkedChar p c with
    | next p' =>
      rw [hc] at h
      obtain ⟨k, hk, rfl⟩ := ParseResult.took_of_succ h
      exact (ih hk).imp_left (congrArg (· + 1))
    | deliver p' =>
      rw [hc] at h
      dsimp only at h ⊢
      split at h
      · next hb =>
        rw [if_pos hb]
        obtain ⟨k, hk, rfl⟩ := ParseResult.took_of_succ h
        exact (ih hk).imp_left (congrArg (· + 1))
      · next hb =>
        rw [if_neg hb]
        exact .inr (.inr (Nat.le_of_not_lt hb))
    | stop p' =>
      rw [hc] at hkeep
      exact .inr (.inl hkeep.2)
    | error =>
      rw [hc] at h
      cases h

section

variable {enc data : List UInt8} (valid : Chunked enc data) (p₀ : BasicBodyParser)

theorem noExtensionTo_iff (k : Nat) : (HttpBody.chunked enc data valid).NoExtensionTo k ↔
    grammarStep.Clean Parts .start (enc.take k) :=
  ⟨.of_goes (grammar_goes valid k) fun _ _ hg hp => (parts_iff_isExtension hg).mp hp,
    .of_goes (grammar_goes valid k) fun _ _ hg he => (parts_iff_isExtension hg).mpr he⟩

/-- Behind the whole body the scanner does not wait. -/
theorem run_whole_ne_pending {enc data : List UInt8} (valid : Chunked enc data)
    (p₀ q : BasicBodyParser) (o : List UInt8) :
    chunkedStep.run (parseInit p₀ .chunked 0) enc ≠ .pending q o := by
  intro hrun
  have hclean := clean_of_run valid p₀ (k := enc.length) fun i hi => by
    rw [List.take_length, hrun] at hi
    cases hi
  have hsame := grammar_tracks.sameEnd_of_clean (tied_init p₀ 0) hclean
  rw [List.take_length, hrun, (chunked_iff_accepts enc data).mp valid] at hsame
  exact hsame

/-- A run that has come to `k` without an error. -/
theorem at_of_run {k : Nat} (hk : k ≤ enc.length) {q : BasicBodyParser} {o : List UInt8}
    (h : chunkedStep.run (parseInit p₀ .chunked 0) (enc.take k) = endOf q k o)
    (henc : q.encodeType = .chunked) :
    (HttpBody.chunked enc data valid).dataIn k = o ∧
      (HttpBody.chunked enc data valid).NoExtensionTo k ∧ ChunkedAt valid p₀ q k := by
  have hclean := clean_of_run valid p₀ (k := k) fun i hi => by
    rw [h, endOf] at hi
    split at hi <;> cases hi
  have hno := (noExtensionTo_iff valid k).mpr hclean
  have hsame := grammar_tracks.sameEnd_of_clean (tied_init p₀ 0) hclean
  by_cases hst : q.status = .eob
  · rw [endOf, if_pos hst] at h
    rw [h] at hsame
    cases hr : grammarStep.run .start (enc.take k) with
    | pending g o' => rw [hr] at hsame; exact hsame.elim
    | fail n => rw [hr] at hsame; exact hsame.elim
    | done n o' =>
      rw [hr] at hsame
      obtain ⟨rfl, rfl⟩ := hsame
      have hall : grammarStep.run .start (enc.take n ++ enc.drop n) = .done n o' :=
        Scanner.run_append_of_done hr
      rw [List.take_append_drop, (chunked_iff_accepts enc data).mp valid] at hall
      refine ⟨?_, hno, henc, fun _ => (Verdict.done.inj hall).1.symm, fun hne => absurd hst hne⟩
      rw [HttpBody.dataIn, hr]
  · rw [endOf, if_neg hst] at h
    have hdata := dataIn_chunked valid p₀ h
    refine ⟨hdata, hno, henc, fun he => absurd he hst, fun _ => ⟨?_, hdata ▸ h⟩⟩
    refine lt_of_le_of_ne hk fun heq => ?_
    rw [heq, List.take_length] at h
    exact run_whole_ne_pending valid p₀ _ _ h

theorem chunked_places (rest : List UInt8) :
    Places (.chunked enc data valid) rest (ChunkedAt valid p₀) where
  eob {p k} h := by
    have hpos : 0 < enc.length :=
      List.length_pos_iff.mpr ((chunked_iff_accepts enc data).mp valid).ne_nil
    refine ⟨fun hst => ?_, fun hk => ?_⟩
    · have hk := h.at_end hst
      exact ⟨hk, hk ▸ hpos⟩
    · by_contra hst
      exact absurd hk.1 (h.before hst).1.ne
  lands {p k call} h hst hf hB := by
    obtain ⟨hk, hrun⟩ := h.before hst
    have hlen := length_found (.chunked enc data valid) rest k call
    have hne : ((enc ++ rest).drop k).take call.available ≠ [] := by
      intro hnil
      exact hf (by rw [← hlen]; exact congrArg List.length hnil)
    have hdrop : (enc ++ rest).drop k = enc.drop k ++ rest := List.drop_append_of_le_length hk.le
    -- the first bytes that the call finds are those of the body
    have htake : ∀ m ≤ found (.chunked enc data valid) rest k call, k + m ≤ enc.length →
        (((enc ++ rest).drop k).take call.available).take m = (enc.drop k).take m := by
      intro m hm hle
      have hm' : m ≤ call.available := hm.trans (min_le_left _ _)
      rw [List.take_take, Nat.min_eq_left hm', hdrop,
        List.take_append_of_le_length (by rw [List.length_drop]; omega)]
    have hgo : ∀ m, chunkedStep.run (parseInit p₀ .chunked 0) (enc.take (k + m)) =
        (chunkedStep.run p ((enc.drop k).take m)).after k
          ((HttpBody.chunked enc data valid).dataIn k) := by
      intro m
      rw [List.take_add, Scanner.run_append_of_pending hrun, List.length_take,
        Nat.min_eq_left hk.le]
    have hcall := streamCall_chunked h.encodeType hst hne
    show Lands _ _ k _ (streamCall p ((enc ++ rest).drop k) call)
    rw [hcall]
    change (((enc ++ rest).drop k).take call.available).length = _ at hlen
    generalize ((enc ++ rest).drop k).take call.available = seg at htake hlen hcall ⊢
    have hbefore : ∀ m < (parseChunked call.bufSize p [] seg).ending.reads, m ≤ seg.length →
        k + m < enc.length ∧ ((HttpBody.chunked enc data valid).dataIn (k + m)).length <
          ((HttpBody.chunked enc data valid).dataIn k).length + call.bufSize := by
      intro m hm hms
      have hinside : k + m < enc.length := by
        by_contra hout
        have hL : k + (enc.length - k) = enc.length := by omega
        obtain ⟨q, o, hq, -⟩ := parseChunked_before hB
          (show enc.length - k < (parseChunked call.bufSize p [] seg).ending.reads by omega)
        rw [htake _ (by omega) hL.le] at hq
        have hwhole := hgo (enc.length - k)
        rw [hL, List.take_length, hq] at hwhole
        exact run_whole_ne_pending valid p₀ _ _ hwhole
      obtain ⟨q, o, hq, ho⟩ := parseChunked_before hB hm
      rw [htake m (by omega) hinside.le] at hq
      have hnext := hgo m
      rw [hq] at hnext
      refine ⟨hinside, ?_⟩
      rw [dataIn_chunked valid p₀ hnext, List.length_append]
      rw [List.length_nil] at ho
      omega
    cases hend : (parseChunked call.bufSize p [] seg).ending with
    | took n =>
      obtain ⟨out, hbuf, hn, henc, hr⟩ := parseChunked_took hst hend
      rw [List.nil_append] at hbuf
      have hle : k + n ≤ enc.length := by
        rcases Nat.eq_zero_or_pos n with rfl | hpos
        · exact hk.le
        · have hlast := (hbefore (n - 1) (by rw [hend, ParseEnd.reads]; omega) (by omega)).1
          omega
      rw [htake n (by omega) hle] at hr
      have hnext := hgo n
      rw [hr, endOf_after] at hnext
      obtain ⟨hdata, hno, hat⟩ := at_of_run valid p₀ hle hnext (henc.trans h.encodeType)
      have hstop := parseChunked_stops hend
      have hreach : (HttpBody.chunked enc data valid).reach call.bufSize k
          (found (.chunked enc data valid) rest k call) = k + n := by
        refine HttpBody.reachFrom_eq (Nat.le_add_right k n) (by omega) hle ?_ ?_
        · intro j hkj hj
          have hb := (hbefore (j - k) (by rw [hend, ParseEnd.reads]; omega) (by omega)).2
          rwa [Nat.add_sub_cancel' hkj] at hb
        · rcases hstop with hall | heob | hfull
          · exact .inl (by omega)
          · exact .inr (.inl (hat.at_end heob))
          · rw [hbuf] at hfull
            rw [hdata, List.length_append]
            exact .inr (.inr (by omega))
      rw [hreach]
      exact ⟨rfl, hbuf ▸ hdata, hno, fun _ => hat⟩
    | error i =>
      obtain ⟨hi, -, hfail⟩ := Scanner.run_take_fail (parseChunked_error hend)
      have hb : ∀ m ≤ i, _ := fun m hm =>
        hbefore m (by rw [hend, ParseEnd.reads]; omega) (by omega)
      have hin := (hb i le_rfl).1
      have hpass : k + i < (HttpBody.chunked enc data valid).reach call.bufSize k
          (found (.chunked enc data valid) rest k call) := by
        refine HttpBody.lt_reachFrom (Nat.le_add_right k i) (by omega) hin ?_
        intro j hkj hj
        have hd := (hb (j - k) (by omega)).2
        rwa [Nat.add_sub_cancel' hkj] at hd
      intro hno
      -- the parser has refused a byte that it has to pass
      have hclean := ((noExtensionTo_iff valid _).mp hno).take (k + i + 1)
      rw [List.take_take, Nat.min_eq_left hpass] at hclean
      have hsame := grammar_tracks.sameEnd_of_clean (tied_init p₀ 0) hclean
      rw [htake (i + 1) (by omega) (by omega)] at hfail
      have hnext := hgo (i + 1)
      rw [hfail, ← Nat.add_assoc] at hnext
      rw [hnext] at hsame
      cases hg : grammarStep.run .start (enc.take (k + i + 1)) with
      | pending g o => rw [hg] at hsame; exact hsame.elim
      | done n o => rw [hg] at hsame; exact hsame.elim
      | fail n => exact grammar_goes valid _ n hg

end

/-- The parser of a request stands at the beginning of the body. -/
theorem exists_places (b : HttpBody) (p₀ : BasicBodyParser) (rest : List UInt8) :
    ∃ At, Places b rest At ∧ At (b.init p₀) 0 := by
  cases b with
  | plain data fits =>
    refine ⟨_, plain_places data fits rest, rfl, Nat.zero_le _, ?_, (if_neg fun h => lt_irrefl 0 h.2).symm⟩
    exact UInt32.toNat_ofNat_of_lt' fits
  | chunked enc data valid =>
    have hpos : 0 < enc.length :=
      List.length_pos_iff.mpr ((chunked_iff_accepts enc data).mp valid).ne_nil
    exact ⟨_, chunked_places valid p₀ rest, rfl, (fun he => nomatch he), fun _ => ⟨hpos, rfl⟩⟩

theorem HttpBody.dataIn_zero (b : HttpBody) : b.dataIn 0 = [] := by
  cases b <;> rfl

theorem HttpBody.dataIn_length (b : HttpBody) : b.dataIn b.enc.length = b.data := by
  cases b with
  | plain data fits => exact List.take_length
  | chunked enc data valid => exact dataIn_whole valid

theorem HttpBody.dataIn_prefix (b : HttpBody) {j k : Nat} (hjk : j ≤ k) (hk : k ≤ b.enc.length) :
    b.dataIn j <+: b.dataIn k := by
  cases b with
  | plain data fits => exact List.take_prefix_take_left hjk
  | chunked enc data valid => exact dataIn_mono valid hjk hk

/-- All reads of a run find a byte of the data or the end of the body, up to the first that comes no
further in the data. Without room a call stores one byte all the same. -/
def AllFind (b : HttpBody) (rest : List UInt8) : Nat → List ReadCall → Prop
  | _, [] => True
  | k, call :: calls =>
      let t := b.reach (max 1 call.bufSize) k (found b rest k call)
      Brings b rest k call ∧ (b.dataIn t ≠ b.dataIn k → AllFind b rest t calls)

theorem parseChunked_noRoom (p : BasicBodyParser) (cs : List UInt8) :
    parseChunked 0 p [] cs = parseChunked 1 p [] cs := by
  induction cs generalizing p with
  | nil => rfl
  | cons c cs ih =>
    rw [parseChunked, parseChunked]
    cases chunkedChar p c with
    | next p' => simp only [ih]
    | deliver p' => rfl
    | stop p' => rfl
    | error => rfl

theorem streamCall_noRoom (p : BasicBodyParser) (s : List UInt8) (available bufSize : Nat) :
    streamCall p s ⟨available, bufSize⟩ = streamCall p s ⟨available, max 1 bufSize⟩ := by
  rcases Nat.eq_zero_or_pos bufSize with rfl | hpos
  · have hparse : ∀ rx, parseStream 0 p rx = parseStream 1 p rx := by
      intro rx
      rw [parseStream, parseStream, parseChar, parseChar, parseChunked_noRoom]
      cases rx with
      | nil => rfl
      | cons c cs => rfl
    simp only [streamCall, hparse, Nat.max_zero]
  · rw [Nat.max_eq_right hpos]

theorem HttpBody.noExtension_of_semicolon {enc data : List UInt8} (valid : Chunked enc data)
    (h : chSemicolon ∉ enc) : (HttpBody.chunked enc data valid).NoExtension := by
  apply Scanner.Clean.of_forall
  intro c hc s hext
  cases s with
  | size v =>
    obtain rfl : c = chSemicolon := hext
    exact h hc
  | _ => exact hext

theorem HttpBody.NoExtension.to {b : HttpBody} (h : b.NoExtension) (k : Nat) : b.NoExtensionTo k := by
  cases b with
  | plain data fits => trivial
  | chunked enc data valid => exact Scanner.Clean.take h k

/-- Whether the reads find what they need can be told without the parser. -/
theorem Places.allBring_iff {b : HttpBody} {rest : List UInt8} {At : BasicBodyParser → Nat → Prop}
    (hP : Places b rest At) (hext : b.NoExtension) {p : BasicBodyParser} {k : Nat} (h : At p k)
    (calls : List ReadCall) : AllBring b rest p k calls ↔ AllFind b rest k calls := by
  induction calls generalizing p k with
  | nil => exact Iff.rfl
  | cons call calls ih =>
    rw [AllBring, AllFind]
    by_cases hst : p.status = .eob
    · obtain ⟨hk, -⟩ := (hP.eob h).mp hst
      have hstay : b.reach (max 1 call.bufSize) k (found b rest k call) = k :=
        HttpBody.reachFrom_self (.inr hk.ge)
      rw [streamCall_eob _ call hst, hstay]
      exact and_congr_right fun _ => iff_of_true trivial fun hne => absurd rfl hne
    by_cases hf : found b rest k call = 0
    · have hstay : b.reach (max 1 call.bufSize) k (found b rest k call) = k :=
        HttpBody.reachFrom_self (.inl hf)
      rw [streamCall_noData hst hf, hstay]
      exact and_congr_right fun _ => iff_of_true trivial fun hne => absurd rfl hne
    have hland : Lands b At k (b.reach (max 1 call.bufSize) k (found b rest k call))
        (streamCall p ((b.enc ++ rest).drop k) ⟨call.available, max 1 call.bufSize⟩) :=
      hP.lands h hst hf (Nat.lt_of_lt_of_le Nat.one_pos (Nat.le_max_left ..))
    rw [← streamCall_noRoom] at hland
    apply and_congr_right
    intro _
    generalize b.reach (max 1 call.bufSize) k (found b rest k call) = t at hland ⊢
    cases hcall : streamCall p ((b.enc ++ rest).drop k) call with
    | noData =>
      rw [hcall] at hland
      exact hland.elim
    | error =>
      rw [hcall] at hland
      exact absurd (hext.to t) hland
    | read buf p' n =>
      rw [hcall] at hland
      obtain ⟨hkn, hdata, -, hat⟩ := hland
      cases buf with
      | nil =>
        rw [List.append_nil] at hdata
        exact iff_of_true trivial fun hne => absurd hdata hne
      | cons c cs =>
        have hne : b.dataIn t ≠ b.dataIn k := by
          rw [hdata]
          simp
        dsimp only
        rw [hkn, ih (hat (List.cons_ne_nil c cs))]
        exact ⟨fun hall _ => hall, fun hall => hall hne⟩

/-- The body parser tells missing data from an error by what is in the socket. -/
theorem take_of_failed {p : BasicBodyParser} {s : List UInt8} {call : ReadCall} :
    (streamCall p s call = .noData → s.take call.available = []) ∧
      (streamCall p s call = .error → s.take call.available ≠ []) := by
  rw [streamCall]
  split
  · exact ⟨StreamCall.noConfusion, StreamCall.noConfusion⟩
  split
  · next hnil => exact ⟨fun _ => hnil, StreamCall.noConfusion⟩
  · next hne =>
    refine ⟨fun h => ?_, fun _ => hne⟩
    dsimp only at h
    split at h
    · cases h
    · cases h

/-- A parser that follows the body knows when a call without a byte has come to its end. -/
def KnowsEnd (b : HttpBody) (rest : List UInt8) (At : BasicBodyParser → Nat → Prop) : Prop :=
  ∀ {p p' : BasicBodyParser} {k n : Nat} {call : ReadCall}, At p k → p.status ≠ .eob →
    streamCall p ((b.enc ++ rest).drop k) call = .read [] p' n → k + n = b.enc.length → p'.status = .eob

theorem plain_knowsEnd (data : List UInt8) (fits : data.length < 2 ^ 32) (rest : List UInt8) :
    KnowsEnd (.plain data fits) rest (PlainAt data) := by
  intro p p' k n call h hst hcall _
  rw [streamCall, if_neg hst] at hcall
  split at hcall
  · cases hcall
  · next hne =>
    have hbody : p.status = .body := by
      rw [h.status] at hst ⊢
      split at hst
      · exact absurd rfl hst
      · next hno => rw [if_neg hno]
    rw [parseStream, if_neg hst, parseChar, h.encodeType] at hcall
    simp only [hbody, ne_eq, not_true_eq_false, if_false] at hcall
    obtain ⟨m, ht⟩ := parsePlain_takes call.bufSize p [] (((HttpBody.plain data fits).enc ++ rest).drop k |>.take call.available)
    simp only [ht.ending] at hcall
    obtain ⟨hbuf, hp, rfl⟩ := StreamCall.read.inj hcall
    rw [ht.buf, List.nil_append, List.take_eq_nil_iff] at hbuf
    have hz : m = 0 := hbuf.resolve_right hne
    have hleft := (ht.moves hz).resolve_left hne
    rw [← hp, ht.status, if_pos (hleft.trans hz.symm)]

theorem chunked_knowsEnd {enc data : List UInt8} (valid : Chunked enc data) (p₀ : BasicBodyParser)
    (hclean : grammarStep.Clean Parts .start enc) (rest : List UInt8) :
    KnowsEnd (.chunked enc data valid) rest (ChunkedAt valid p₀) := by
  intro p p' k n call h hst hcall hend
  obtain ⟨m, htook, -, -, -, hat⟩ := chunked_call valid p₀ hclean rest call.bufSize call.available h hst
  change streamCall p ((enc ++ rest).drop k) call = _ at hcall
  have hne : ((enc ++ rest).drop k).take call.available ≠ [] := by
    intro hnil
    rw [streamCall, if_neg hst, if_pos hnil] at hcall
    cases hcall
  rw [streamCall_chunked h.encodeType hst hne] at hcall
  simp only [htook] at hcall
  obtain ⟨-, rfl, rfl⟩ := StreamCall.read.inj hcall
  by_contra hno
  exact absurd (hat.before hno).1 (Nat.not_lt.mpr (le_of_eq hend.symm))

end MiMic.Http
