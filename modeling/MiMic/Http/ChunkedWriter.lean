import MiMic.Http.BodyWriter
import MiMic.Http.ChunkedBody

/-!
# The chunked writer and the chunked reader

However a body is cut into calls, the stream writes it as one piece would be written, so only
its length and the sizes of the send buffers matter. `SizesFit` is what they have to satisfy.
-/
namespace MiMic.Http

open Verif

namespace TxBuf

theorem append_append {b b' : TxBuf} {s t : List UInt8} (h : b.append s = some b') :
    b.append (s ++ t) = b'.append t := by
  unfold append at h ⊢
  split at h
  · obtain rfl := Option.some.inj h
    simp only [List.length_append, Nat.add_assoc, List.append_assoc]
  · cases h

theorem append_length_le {b b' : TxBuf} {s : List UInt8} (h : b.append s = some b') :
    b' = { b with bytes := b.bytes ++ s } ∧ b.bytes.length + s.length ≤ b.size.toNat := by
  unfold append at h
  split at h
  · next hle => exact ⟨(Option.some.inj h).symm, hle⟩
  · cases h

/-- What fits is counted down without a wrap. -/
theorem freeSize_append {b b' : TxBuf} {s : List UInt8} (h : b.append s = some b')
    (hlt : s.length < b.freeSize.toNat) :
    b'.freeSize.toNat = b.freeSize.toNat - s.length := by
  obtain ⟨rfl, -⟩ := append_length_le h
  have hs : (UInt16.ofNat s.length).toNat = s.length := by
    rw [UInt16.toNat_ofNat', Nat.mod_eq_of_lt]
    have := b.freeSize.toNat_lt
    omega
  have hfree : TxBuf.freeSize { b with bytes := b.bytes ++ s } =
      b.freeSize - UInt16.ofNat s.length := by
    simp only [freeSize, txLen, List.length_append, UInt16.ofNat_add]
    grind
  rw [hfree, UInt16.toNat_sub_of_le _ _ (by rw [UInt16.le_iff_toNat_le, hs]; omega), hs]

end TxBuf

theorem fill_kept {b b' : TxBuf} {s : List UInt8} (h : b.fill s = some (b', none)) :
    s.length < b.freeSize.toNat ∧ b.append s = some b' := by
  unfold TxBuf.fill at h
  split at h
  · next hlt =>
    cases ha : b.append s with
    | none => simp [ha] at h
    | some c =>
      rw [ha] at h
      obtain rfl : c = b' := by simpa using h
      exact ⟨hlt, rfl⟩
  · simp at h

theorem fill_full {b b' : TxBuf} {s rest : List UInt8} (h : b.fill s = some (b', some rest)) :
    b.freeSize.toNat ≤ s.length ∧ b.append (s.take b.freeSize.toNat) = some b' ∧
      rest = s.drop b.freeSize.toNat := by
  unfold TxBuf.fill at h
  split at h
  · simp at h
  · next hle =>
    cases ha : b.append (s.take b.freeSize.toNat) with
    | none => simp [ha] at h
    | some c =>
      rw [ha] at h
      obtain ⟨rfl, rfl⟩ : c = b' ∧ s.drop b.freeSize.toNat = rest := by simpa using h
      exact ⟨not_lt.mp hle, rfl, rfl⟩

/-- A piece that is kept leaves the buffer to the next. -/
theorem fill_append_kept {b b' : TxBuf} {s t : List UInt8} (h : b.fill s = some (b', none)) :
    b.fill (s ++ t) = b'.fill t := by
  obtain ⟨hlt, ha⟩ := fill_kept h
  have hfree := TxBuf.freeSize_append ha hlt
  unfold TxBuf.fill
  rw [hfree, List.length_append]
  by_cases hall : s.length + t.length < b.freeSize.toNat
  · rw [if_pos hall, if_pos (by omega), TxBuf.append_append ha]
  · have htake : (s ++ t).take b.freeSize.toNat = s ++ t.take (b.freeSize.toNat - s.length) := by
      rw [List.take_append, List.take_of_length_le (by omega)]
    have hdrop : (s ++ t).drop b.freeSize.toNat = t.drop (b.freeSize.toNat - s.length) := by
      rw [List.drop_append, List.drop_of_length_le (by omega), List.nil_append]
    rw [if_neg hall, if_neg (by omega), htake, hdrop, TxBuf.append_append ha]

theorem fill_append_full {b b' : TxBuf} {s rest : List UInt8} (t : List UInt8)
    (h : b.fill s = some (b', some rest)) : b.fill (s ++ t) = some (b', some (rest ++ t)) := by
  obtain ⟨hle, ha, rfl⟩ := fill_full h
  unfold TxBuf.fill
  rw [if_neg (by rw [List.length_append]; omega), List.take_append_of_le_length hle,
    List.drop_append_of_le_length hle, ha]
  rfl

theorem fill_append_none {b : TxBuf} {s : List UInt8} (t : List UInt8) (h : b.fill s = none) :
    b.fill (s ++ t) = none := by
  have hnone : ∀ {u : List UInt8}, b.append u = none ↔ b.size.toNat < b.bytes.length + u.length := by
    intro u
    unfold TxBuf.append
    split <;> simp <;> omega
  unfold TxBuf.fill at h ⊢
  split at h
  · next hlt =>
    have hover := hnone.mp (Option.map_eq_none_iff.mp h)
    split
    · rw [hnone.mpr (by rw [List.length_append]; omega)]
      rfl
    · rw [hnone.mpr (by rw [List.length_take, List.length_append] ; rw [List.length_append] at *; omega)]
      rfl
  · next hge =>
    have hover := hnone.mp (Option.map_eq_none_iff.mp h)
    rw [if_neg (by rw [List.length_append]; omega), List.take_append_of_le_length (by omega),
      hnone.mpr hover]
    rfl

namespace HttpStream

theorem writeAlloc_nil (we : TransferEncoding) (sizes : List UInt16) (sent : List UInt8) :
    writeAlloc we sizes sent [] = some (⟨we, none, sizes, sent⟩, true) := by
  cases sizes <;> rfl

theorem writeFunc_nil (st : HttpStream) : st.writeFunc [] = some (st, true) := by
  rw [writeFunc]
  cases hb : st.txb with
  | none =>
    simp only [writeAlloc_nil, ← hb]
  | some b => rfl

theorem bind_writeFunc_nil (o : Option (HttpStream × Bool)) :
    (o.bind fun r => if r.2 then r.1.writeFunc [] else some r) = o := by
  cases o with
  | none => rfl
  | some r =>
    obtain ⟨st, ok⟩ := r
    cases ok <;> simp [writeFunc_nil]

/-- Two writes in a row are one. -/
theorem writeAlloc_append (we : TransferEncoding) (sizes : List UInt16) (sent s t : List UInt8) :
    writeAlloc we sizes sent (s ++ t) =
      (writeAlloc we sizes sent s).bind fun r => if r.2 then r.1.writeFunc t else some r := by
  by_cases ht : t.isEmpty = true
  · obtain rfl := List.isEmpty_iff.mp ht
    rw [List.append_nil, bind_writeFunc_nil]
  · rw [Bool.not_eq_true] at ht
    induction sizes generalizing sent s with
    | nil =>
      cases s with
      | nil => simp [writeAlloc, writeFunc]
      | cons c s => simp [writeAlloc]
    | cons size sizes ih =>
      cases s with
      | nil => simp [writeAlloc_nil, writeFunc]
      | cons c s =>
        rw [writeAlloc, writeAlloc]
        simp only [List.cons_append, List.isEmpty_cons, Bool.false_eq_true, if_false]
        rw [← List.cons_append]
        cases hf : (TxBuf.alloc we size).fill (c :: s) with
        | none =>
          rw [fill_append_none t hf]
          rfl
        | some r =>
          obtain ⟨b, rest | rest⟩ := r
          · rw [fill_append_kept hf]
            simp only [Option.bind_some, if_true, writeFunc, ht]
            rfl
          · rw [fill_append_full t hf]
            simp only
            cases b.flush we with
            | none => rfl
            | some bytes => exact ih (sent ++ bytes) rest

theorem writeFunc_append (st : HttpStream) (s t : List UInt8) :
    st.writeFunc (s ++ t) =
      (st.writeFunc s).bind fun r => if r.2 then r.1.writeFunc t else some r := by
  cases hb : st.txb with
  | none =>
    rw [writeFunc, writeFunc]
    simp only [hb]
    exact writeAlloc_append _ _ _ _ _
  | some b =>
    cases s with
    | nil => simp [writeFunc_nil]
    | cons c s =>
      cases t with
      | nil => rw [List.append_nil, bind_writeFunc_nil]
      | cons d t =>
        rw [writeFunc, writeFunc]
        simp only [hb, List.cons_append, List.isEmpty_cons, Bool.false_eq_true, if_false]
        rw [← List.cons_append]
        cases hf : b.fill (c :: s) with
        | none =>
          rw [fill_append_none (d :: t) hf]
          rfl
        | some r =>
          obtain ⟨b', rest | rest⟩ := r
          · rw [fill_append_kept hf]
            rfl
          · rw [fill_append_full (d :: t) hf]
            simp only
            cases b'.flush st.weType with
            | none => rfl
            | some bytes => exact writeAlloc_append _ _ _ _ _

end HttpStream

theorem ofLength_self {buf : List UInt8} (h : buf.length < 2 ^ 31) :
    BodyWriter.ofLength buf (UInt32.ofNat buf.length) = buf := by
  have hlen : (UInt32.ofNat buf.length).toNat = buf.length := by
    rw [UInt32.toNat_ofNat', Nat.mod_eq_of_lt (by omega)]
  have hpos : ¬ (UInt32.ofNat buf.length).toInt32 < 0 := by
    rw [UInt32.toInt32_ofNat', Int32.lt_iff_toInt_lt, Int32.toInt_ofNat_of_lt h, Int32.toInt_zero]
    omega
  rw [BodyWriter.ofLength, if_neg hpos, hlen, List.take_length]

namespace BodyWriter

/-- The writer over its stream: what `write_func` reports becomes the error flag. -/
def written (w : BodyWriter) (src : List UInt8) : Option (BodyWriter × Bool) :=
  if w.isError then some (w, false)
  else (w.stream.writeFunc src).map fun (st, ok) =>
    if ok then ({ w with stream := st }, true) else ({ w with stream := st, isError := true }, false)

theorem write_eq {buf : List UInt8} (w : BodyWriter) (h : buf.length < 2 ^ 31) :
    w.write buf = w.written buf := by
  rw [write, printHandler, ofLength_self h]
  rfl

theorem written_append (w : BodyWriter) (s t : List UInt8) :
    w.written (s ++ t) = (w.written s).bind fun r => r.1.written t := by
  cases he : w.isError with
  | true => simp [written, he]
  | false =>
    simp only [written, he, HttpStream.writeFunc_append, Bool.false_eq_true, if_false]
    cases w.stream.writeFunc s with
    | none => rfl
    | some r =>
      obtain ⟨st, ok⟩ := r
      cases ok <;> simp

theorem printPieces_eq (w : BodyWriter) {pieces : List (List UInt8)} (hne : pieces ≠ [])
    (hlen : ∀ p ∈ pieces, p.length ≤ 33) : w.printPieces pieces = w.written pieces.flatten := by
  induction pieces generalizing w with
  | nil => exact absurd rfl hne
  | cons p pieces ih =>
    have hp : p.length < 2 ^ 31 := lt_of_le_of_lt (hlen p List.mem_cons_self) (by norm_num)
    cases pieces with
    | nil => rw [printPieces, write_eq w hp, List.flatten_singleton]
    | cons q pieces =>
      rw [List.flatten_cons, written_append, printPieces, write_eq w hp]
      · cases w.written p with
        | none => rfl
        | some r =>
          exact ih r.1 (List.cons_ne_nil q pieces) fun p hp => hlen p (List.mem_cons_of_mem _ hp)
      · exact List.cons_ne_nil q pieces

end BodyWriter

theorem call_run (w : BodyWriter) (call : BodyCall) : call.run w = w.written call.bytes := by
  cases call with
  | write buf fits => exact BodyWriter.write_eq w fits
  | format fmt args wellTyped =>
    have htext := formatPrint_text fmt args
    cases hp : formatPrint fmt args with
    | none =>
      rw [← htext, hp] at wellTyped
      cases wellTyped
    | some pieces =>
      obtain ⟨hne, hlen⟩ := formatPrint_short hp
      rw [hp] at htext
      rw [BodyCall.run, BodyWriter.format, BodyCall.bytes, ← htext, hp]
      simp only [Option.map_some, Option.getD_some, ← BodyWriter.printPieces_eq w hne hlen]
      split
      · next he => rw [BodyWriter.printPieces_eq w hne hlen, BodyWriter.written, if_pos he]
      · rfl

theorem runCalls_eq (w : BodyWriter) (calls : List BodyCall) :
    runCalls w calls = (w.written (calls.flatMap BodyCall.bytes)).map Prod.fst := by
  induction calls generalizing w with
  | nil =>
    rw [runCalls, List.flatMap_nil, BodyWriter.written, HttpStream.writeFunc_nil]
    split <;> rfl
  | cons call calls ih =>
    rw [runCalls, call_run, List.flatMap_cons, BodyWriter.written_append]
    cases w.written call.bytes with
    | none => rfl
    | some r => exact ih r.1

/-- The chunk that is sent for some data. -/
def chunkBytes (data : List UInt8) : List UInt8 :=
  putChunkedHeader (UInt16.ofNat data.length) ++ data ++ [chCr, chLf]

theorem chunkDigit_spec {i : UInt16} (h : i.toNat < 16) :
    isXDigit (chunkDigit i) = true ∧ (ctox (chunkDigit i)).toNat = i.toNat := by
  have hall : ∀ k : Fin 16, isXDigit (chunkDigits.getD k 0) = true ∧
      (ctox (chunkDigits.getD k 0)).toNat = k := by decide
  exact hall ⟨i.toNat, h⟩

/-- The digits of a header carry the lowest twelve bits. -/
theorem headerDigits (v : UInt16) :
    ((v &&& 0x0f00) >>> 8).toNat < 16 ∧ ((v &&& 0x00f0) >>> 4).toNat < 16 ∧ (v &&& 0x000f).toNat < 16 ∧
      (((v &&& 0x0f00) >>> 8).toNat * 16 + ((v &&& 0x00f0) >>> 4).toNat) * 16 + (v &&& 0x000f).toNat =
        v.toNat % 4096 := by
  have h1 : ((v &&& 0x0f00) >>> 8).toNat = v.toNat / 256 % 16 := by
    rw [UInt16.toNat_shiftRight, UInt16.toNat_and]
    change (v.toNat &&& 0x0f00) >>> 8 = _
    rw [Nat.shiftRight_and_distrib, Nat.shiftRight_eq_div_pow]
    exact Nat.and_two_pow_sub_one_eq_mod _ 4
  have h2 : ((v &&& 0x00f0) >>> 4).toNat = v.toNat / 16 % 16 := by
    rw [UInt16.toNat_shiftRight, UInt16.toNat_and]
    change (v.toNat &&& 0x00f0) >>> 4 = _
    rw [Nat.shiftRight_and_distrib, Nat.shiftRight_eq_div_pow]
    exact Nat.and_two_pow_sub_one_eq_mod _ 4
  have h3 : (v &&& 0x000f).toNat = v.toNat % 16 := by
    rw [UInt16.toNat_and]
    exact Nat.and_two_pow_sub_one_eq_mod _ 4
  rw [h1, h2, h3]
  omega

theorem run_hexDigit {p : BasicBodyParser} {v d : Nat} {c : UInt8} (rest : List UInt8)
    (hst : p.status = .chunkHeaderStart) (hc : isXDigit c = true ∧ (ctox c).toNat = d)
    (hlt : v * 16 + d < 4096) :
    chunkedStep.run { p with recvLen := (v : Int) } (c :: rest) =
      (chunkedStep.run { p with recvLen := ((v * 16 + d : Nat) : Int) } rest).after 1 [] := by
  obtain ⟨hx, rfl⟩ := hc
  have hn : nextRecvLen { p with recvLen := (v : Int) } c = ((v * 16 + (ctox c).toNat : Nat) : Int) :=
    nextRecvLen_small rfl (by omega)
  have hmax : ¬ ((v * 16 + (ctox c).toNat : Nat) : Int) > maxChunkSize := by
    rw [maxChunkSize]
    omega
  have hs : chunkedChar { p with recvLen := (v : Int) } c =
      .next { p with recvLen := ((v * 16 + (ctox c).toNat : Nat) : Int) } := by
    rw [hst] at hn
    simp only [chunkedChar, hst, hx, hn, if_true, if_neg hmax]
  rw [Scanner.run_next (chunkedStep_eq hs)]

/-- A header up to its line end. -/
theorem run_header {p : BasicBodyParser} (v : UInt16) (rest : List UInt8)
    (hst : p.status = .chunkHeaderStart) (h0 : p.recvLen = 0) :
    chunkedStep.run p (putChunkedHeader v ++ rest) =
      (chunkedStep.run { p with
        recvLen := ((v.toNat % 4096 : Nat) : Int)
        status := if v.toNat % 4096 = 0 then .chunkEnd else .chunkBody } rest).after 5 [] := by
  obtain ⟨h1, h2, h3, hv⟩ := headerDigits v
  have hp : p = { p with recvLen := ((0 : Nat) : Int) } := by
    cases p
    exact congrArg (BasicBodyParser.mk _ _ · _) h0
  simp only [putChunkedHeader, List.cons_append, List.nil_append]
  rw [hp, run_hexDigit _ hst (chunkDigit_spec h1) (by omega),
    run_hexDigit _ hst (chunkDigit_spec h2) (by omega),
    run_hexDigit _ hst (chunkDigit_spec h3) (by omega), Nat.zero_mul, Nat.zero_add, hv]
  have hcr : chunkedStep { p with recvLen := ((v.toNat % 4096 : Nat) : Int) } chCr =
      .next { p with recvLen := ((v.toNat % 4096 : Nat) : Int), status := .chunkHeaderExt } [] := by
    refine chunkedStep_eq ?_
    simp only [chunkedChar, hst]
    rfl
  have hlf : chunkedStep { p with
        recvLen := ((v.toNat % 4096 : Nat) : Int), status := .chunkHeaderExt } chLf =
      .next { p with
        recvLen := ((v.toNat % 4096 : Nat) : Int)
        status := if v.toNat % 4096 = 0 then .chunkEnd else .chunkBody } [] := by
    refine chunkedStep_eq ?_
    simp only [chunkedChar, extChar, if_true]
    split <;> split <;> first | rfl | omega
  rw [Scanner.run_next hcr, Scanner.run_next hlf]
  simp only [Verdict.after_after, List.append_nil]

theorem run_data {p : BasicBodyParser} {data : List UInt8} (rest : List UInt8)
    (hst : p.status = .chunkBody) (hlen : p.recvLen = data.length) (hne : data ≠ []) :
    chunkedStep.run p (data ++ rest) =
      (chunkedStep.run { p with recvLen := 0, status := .chunkFooter } rest).after data.length data := by
  induction data generalizing p with
  | nil => exact absurd rfl hne
  | cons c data ih =>
    rw [List.length_cons] at hlen
    have hs : chunkedStep p c = .next (if p.recvLen - 1 = 0
        then { p with recvLen := p.recvLen - 1, status := .chunkFooter }
        else { p with recvLen := p.recvLen - 1 }) [c] := by
      rw [chunkedStep, chunkedChar, hst]
    rw [List.cons_append, Scanner.run_next hs]
    cases data with
    | nil =>
      have h0 : p.recvLen - 1 = 0 := by
        rw [List.length_nil] at hlen
        omega
      rw [if_pos h0, h0]
      rfl
    | cons d data =>
      have h0 : p.recvLen - 1 ≠ 0 := by
        rw [List.length_cons] at hlen
        omega
      rw [if_neg h0]
      have hnext : p.recvLen - 1 = ((d :: data).length : Int) := by omega
      rw [ih (p := { p with recvLen := p.recvLen - 1 }) hst hnext (List.cons_ne_nil d data), Verdict.after_after, Nat.add_comm 1]
      rfl

/-- One chunk is delivered, and the reader stands where it stood before. -/
theorem run_chunk {p : BasicBodyParser} {data : List UInt8} (rest : List UInt8)
    (hst : p.status = .chunkHeaderStart) (h0 : p.recvLen = 0) (hne : data ≠ [])
    (hlen : data.length < 4096) :
    chunkedStep.run p (chunkBytes data ++ rest) =
      (chunkedStep.run p rest).after (chunkBytes data).length data := by
  have hv : (UInt16.ofNat data.length).toNat % 4096 = data.length := by
    rw [UInt16.toNat_ofNat', Nat.mod_eq_of_lt (a := data.length) (by omega), Nat.mod_eq_of_lt hlen]
  have hpos : data.length ≠ 0 := fun h => hne (List.length_eq_zero_iff.mp h)
  have hback : ({ p with recvLen := 0, status := .chunkHeaderStart } : BasicBodyParser) = p := by
    cases p
    simp only at hst h0
    rw [hst, h0]
  rw [chunkBytes, List.append_assoc, List.append_assoc, run_header _ _ hst h0, hv, if_neg hpos,
    run_data _ rfl rfl hne]
  have hcr : chunkedStep { p with recvLen := 0, status := .chunkFooter } chCr =
      .next { p with recvLen := 0, status := .chunkFooter } [] := by
    rw [chunkedStep_footer rfl, if_pos rfl]
  have hlf : chunkedStep { p with recvLen := 0, status := .chunkFooter } chLf = .next p [] := by
    rw [chunkedStep_footer rfl, if_neg chLf_ne_chCr, if_pos rfl]
    exact congrArg (ScanStep.next · []) hback
  rw [List.cons_append, List.cons_append, List.nil_append, Scanner.run_next hcr,
    Scanner.run_next hlf]
  simp only [Verdict.after_after, List.append_nil, List.nil_append]
  congr 1
  simp [putChunkedHeader]
  omega

/-- An empty chunk ends the body. -/
theorem run_emptyChunk {p : BasicBodyParser} (rest : List UInt8)
    (hst : p.status = .chunkHeaderStart) (h0 : p.recvLen = 0) :
    chunkedStep.run p (chunkBytes [] ++ rest) = .done 7 [] := by
  have hcr : ∀ q : BasicBodyParser, q.status = .chunkEnd → chunkedStep q chCr = .next q [] := by
    intro q hq
    rw [chunkedStep_end hq, if_pos rfl]
  have hlf : ∀ q : BasicBodyParser, q.status = .chunkEnd → chunkedStep q chLf = .done [] := by
    intro q hq
    rw [chunkedStep_end hq, if_neg chLf_ne_chCr, if_pos rfl]
  rw [chunkBytes, List.append_assoc, List.append_assoc, run_header _ _ hst h0, List.nil_append]
  rw [List.cons_append, List.cons_append, Scanner.run_next (hcr _ rfl), Scanner.run_done (hlf _ rfl)]
  rfl

/-- What `close` writes. -/
theorem run_footer {p : BasicBodyParser} (hst : p.status = .chunkHeaderStart) (h0 : p.recvLen = 0) :
    chunkedStep.run p [chZero, chCr, chLf, chCr, chLf] = .done 5 [] := by
  cases p
  simp only at hst h0
  rw [hst, h0]
  rfl

/-- What the sizes of the buffers have to be for `n` more bytes: at least 13, so that a chunk
has room for a byte; or so large that everything up to the end of the body fits at once. -/
inductive SizesFit : List UInt16 → Nat → Prop
  | done {sizes} : SizesFit sizes 0
  | chunk {s sizes n} : 13 ≤ s.toNat → SizesFit sizes (n - (s.toNat - 12)) → SizesFit (s :: sizes) n
  | last {s sizes n} : s.toNat ≤ 11 → n + 7 ≤ s.toNat → SizesFit (s :: sizes) n

theorem SizesFit.append {sizes : List UInt16} {n : Nat} (h : SizesFit sizes n)
    (more : List UInt16) : SizesFit (sizes ++ more) n := by
  induction h with
  | done => exact .done
  | chunk h13 _ ih => exact .chunk h13 ih
  | last h11 hle => exact .last h11 hle

/-- The room for data in a new buffer, as the 16 bits have it. -/
theorem freeSize_alloc (s : UInt16) :
    (TxBuf.alloc .chunked s).freeSize.toNat = (s.toNat + 65524) % 65536 := by
  have hfree : (TxBuf.alloc .chunked s).freeSize = s - 12 := by
    simp only [TxBuf.alloc, TxBuf.freeSize, TxBuf.txLen]
    have h5 : UInt16.ofNat (List.replicate 5 (0 : UInt8)).length = 5 := rfl
    rw [h5]
    grind
  have h12 : (12 : UInt16).toNat = 12 := rfl
  rw [hfree, UInt16.toNat_sub, h12]
  omega

/-- A buffer that holds the data of one chunk. -/
def TxBuf.holds (s : UInt16) (data : List UInt8) : TxBuf := ⟨s, s - 7, List.replicate 5 0 ++ data⟩

theorem alloc_append {s : UInt16} {src : List UInt8} (h : 5 + src.length ≤ s.toNat) :
    (TxBuf.alloc .chunked s).append src = some (TxBuf.holds s src) := by
  rw [TxBuf.alloc, TxBuf.append, if_pos (by simpa using h)]
  rfl

theorem append_alloc_some {s : UInt16} {src : List UInt8} {b : TxBuf}
    (h : (TxBuf.alloc .chunked s).append src = some b) :
    b = TxBuf.holds s src ∧ 5 + src.length ≤ s.toNat := by
  obtain ⟨rfl, hle⟩ := TxBuf.append_length_le h
  exact ⟨rfl, by simpa [TxBuf.alloc] using hle⟩

/-- A chunk is sent if it fits with its frame. -/
theorem flush_holds (s : UInt16) (data : List UInt8) :
    (TxBuf.holds s data).flush .chunked =
      if data.length + 7 ≤ s.toNat then some (chunkBytes data) else none := by
  have hlen : (TxBuf.holds s data).txLen - 5 = UInt16.ofNat data.length := by
    simp only [TxBuf.txLen, TxBuf.holds, List.length_append, List.length_replicate,
      UInt16.ofNat_add]
    have h5 : UInt16.ofNat 5 = 5 := rfl
    rw [h5]
    grind
  have hdrop : (TxBuf.holds s data).bytes.drop 5 = data := rfl
  have hroom : (5 ≤ s.toNat ∧ (TxBuf.holds s data).bytes.length + 2 ≤ s.toNat) ↔
      data.length + 7 ≤ s.toNat := by
    simp only [TxBuf.holds, List.length_append, List.length_replicate]
    omega
  rw [TxBuf.flush, hlen, hdrop]
  exact if_congr hroom rfl rfl

namespace HttpStream

/-- What `writeAlloc` does with the next buffer. -/
theorem writeAlloc_cons (we : TransferEncoding) (s : UInt16) (sizes : List UInt16) (sent : List UInt8)
    {src : List UInt8} (hne : src ≠ []) : writeAlloc we (s :: sizes) sent src =
      ((TxBuf.alloc we s).fill src).bind fun r =>
        match r.2 with
        | none => some (⟨we, some r.1, sizes, sent⟩, true)
        | some rest => (r.1.flush we).bind fun bytes => writeAlloc we sizes (sent ++ bytes) rest := by
  have hf : src.isEmpty = false := by simpa using hne
  rw [writeAlloc, hf]
  simp only [Bool.false_eq_true, if_false]
  cases (TxBuf.alloc we s).fill src with
  | none => rfl
  | some r =>
    obtain ⟨b, rest | rest⟩ := r
    · rfl
    · simp only [Option.bind_some]
      cases b.flush we <;> rfl

/-- The data is sent in chunks of less than 4096 bytes, the last one of which may wait in its
buffer; at most one buffer is used for each byte. -/
def Carries (sizes : List UInt16) (sent src : List UInt8) : Prop :=
  ∃ chunks : List (List UInt8), chunks.flatten = src ∧ (∀ c ∈ chunks, c ≠ [] ∧ c.length < 4096) ∧
    ∃ st left, writeAlloc .chunked sizes sent src = some (st, true) ∧
      st.setWriteEncoding .none = some ⟨.none, none, left, sent ++ chunks.flatMap chunkBytes⟩ ∧
      left <:+ sizes ∧ sizes.length ≤ left.length + src.length

theorem carries_nil (sizes : List UInt16) (sent : List UInt8) : Carries sizes sent [] :=
  ⟨[], rfl, by simp, _, sizes, writeAlloc_nil _ _ _, by simp [setWriteEncoding, flushFunc],
    List.suffix_rfl, by simp⟩

/-- A buffer that is not filled up is sent when the encoding changes. -/
theorem carries_kept {s : UInt16} {src : List UInt8} (sizes : List UInt16) (sent : List UInt8)
    (hne : src ≠ []) (hlt : src.length < (TxBuf.alloc .chunked s).freeSize.toNat)
    (hroom : src.length + 7 ≤ s.toNat) (hmax : s.toNat ≤ 1460) : Carries (s :: sizes) sent src := by
  have hfill : (TxBuf.alloc .chunked s).fill src = some (TxBuf.holds s src, none) := by
    rw [TxBuf.fill, if_pos hlt, alloc_append (by omega)]
    rfl
  have hpos := List.length_pos_of_ne_nil hne
  refine ⟨[src], by simp, ?_, ⟨.chunked, some (TxBuf.holds s src), sizes, sent⟩, sizes, ?_, ?_,
    List.suffix_cons s sizes, by rw [List.length_cons]; omega⟩
  · intro c hc
    rw [List.mem_singleton.mp hc]
    exact ⟨hne, by omega⟩
  · rw [writeAlloc_cons _ _ _ _ hne, hfill]
    rfl
  · simp [setWriteEncoding, flushFunc, flush_holds, hroom]

/-- A buffer that is filled up is one chunk. -/
theorem carries_full {s : UInt16} {sizes : List UInt16} {sent src : List UInt8}
    (h13 : 13 ≤ s.toNat) (hmax : s.toNat ≤ 1460) (hle : s.toNat - 12 ≤ src.length)
    (h : Carries sizes (sent ++ chunkBytes (src.take (s.toNat - 12))) (src.drop (s.toNat - 12))) :
    Carries (s :: sizes) sent src := by
  have hfree : (TxBuf.alloc .chunked s).freeSize.toNat = s.toNat - 12 := by
    rw [freeSize_alloc]
    omega
  have hlen : (src.take (s.toNat - 12)).length = s.toNat - 12 := by
    rw [List.length_take, Nat.min_eq_left hle]
  have hfill : (TxBuf.alloc .chunked s).fill src =
      some (TxBuf.holds s (src.take (s.toNat - 12)), some (src.drop (s.toNat - 12))) := by
    rw [TxBuf.fill, hfree, if_neg (by omega), alloc_append (by omega)]
    rfl
  have hne : src ≠ [] := by
    rintro rfl
    rw [List.length_nil] at hle
    omega
  obtain ⟨chunks, hflat, hchunks, st, left, hw, hset, hsuf, hcount⟩ := h
  rw [List.length_drop] at hcount
  refine ⟨src.take (s.toNat - 12) :: chunks, ?_, ?_, st, left, ?_, ?_, ?_, ?_⟩
  · rw [List.flatten_cons, hflat, List.take_append_drop]
  · intro c hc
    obtain rfl | hc := List.mem_cons.mp hc
    · exact ⟨List.ne_nil_of_length_pos (by omega), by omega⟩
    · exact hchunks c hc
  · rw [writeAlloc_cons _ _ _ _ hne, hfill]
    simp only [Option.bind_some, flush_holds, hlen, if_pos (show s.toNat - 12 + 7 ≤ s.toNat by omega)]
    exact hw
  · rw [hset, List.flatMap_cons, List.append_assoc]
  · exact hsuf.trans (List.suffix_cons s sizes)
  · rw [List.length_cons]
    omega

/-- Fitting sizes carry the data. -/
theorem carries_of_fits {sizes : List UInt16} {n : Nat} {src : List UInt8} (sent : List UInt8)
    (hmax : ∀ s ∈ sizes, s.toNat ≤ 1460) (h : SizesFit sizes n) (hn : src.length = n) :
    Carries sizes sent src := by
  induction h generalizing src sent with
  | done =>
    rw [List.length_eq_zero_iff.mp hn]
    exact carries_nil _ _
  | @chunk s sizes n h13 _ ih =>
    have hs := hmax s List.mem_cons_self
    by_cases hlt : src.length < s.toNat - 12
    · by_cases hne : src = []
      · rw [hne]
        exact carries_nil _ _
      · exact carries_kept sizes sent hne (by rw [freeSize_alloc]; omega) (by omega) hs
    · refine carries_full h13 hs (not_lt.mp hlt) (ih _ (fun s hs => hmax s (List.mem_cons_of_mem _ hs)) ?_)
      rw [List.length_drop, hn]
  | @last s sizes n h11 hle =>
    by_cases hne : src = []
    · rw [hne]
      exact carries_nil _ _
    · exact carries_kept sizes sent hne (by rw [freeSize_alloc]; omega) (by omega) (by omega)

theorem setWriteEncoding_sent {st st' : HttpStream} {et : TransferEncoding}
    (h : st.setWriteEncoding et = some st') : st.sent <+: st'.sent := by
  unfold setWriteEncoding flushFunc at h
  split at h
  · exact Option.some.inj h ▸ List.prefix_rfl
  · cases hb : st.txb with
    | none =>
      simp only [hb] at h
      obtain rfl := Option.some.inj h
      exact List.prefix_rfl
    | some b =>
      simp only [hb, Option.map_map] at h
      obtain ⟨bytes, -, rfl⟩ := Option.map_eq_some_iff.mp h
      exact List.prefix_append st.sent bytes

theorem writeAlloc_sent {we : TransferEncoding} {sizes : List UInt16} {sent src : List UInt8}
    {r : HttpStream × Bool} (h : writeAlloc we sizes sent src = some r) : sent <+: r.1.sent := by
  induction sizes generalizing sent src with
  | nil => exact Option.some.inj h ▸ List.prefix_rfl
  | cons s sizes ih =>
    by_cases hne : src = []
    · rw [hne, writeAlloc_nil] at h
      exact Option.some.inj h ▸ List.prefix_rfl
    · rw [writeAlloc_cons _ _ _ _ hne] at h
      obtain ⟨⟨b, rest | rest⟩, -, h⟩ := Option.bind_eq_some_iff.mp h
      · exact Option.some.inj h ▸ List.prefix_rfl
      · obtain ⟨bytes, -, h⟩ := Option.bind_eq_some_iff.mp h
        exact (List.prefix_append sent bytes).trans (ih h)

/-- An empty chunk stands among the first chunks. -/
def EndsEarly (sent out : List UInt8) : Prop :=
  ∃ chunks : List (List UInt8), (∀ c ∈ chunks, c ≠ [] ∧ c.length < 4096) ∧
    sent ++ chunks.flatMap chunkBytes ++ chunkBytes [] <+: out

/-- Where the sizes do not fit and no store fails, the body is ended too early. -/
theorem fits_of_writeAlloc {sizes : List UInt16} {sent src : List UInt8} {st st' : HttpStream}
    (hmax : ∀ s ∈ sizes, s.toNat ≤ 1460)
    (hw : writeAlloc .chunked sizes sent src = some (st, true))
    (hset : st.setWriteEncoding .none = some st') :
    SizesFit sizes src.length ∨ EndsEarly sent st'.sent := by
  induction sizes generalizing sent src with
  | nil =>
    rw [writeAlloc, Option.some.injEq, Prod.mk.injEq] at hw
    rw [List.isEmpty_iff.mp hw.2]
    exact Or.inl .done
  | cons s sizes ih =>
    have hs := hmax s List.mem_cons_self
    by_cases hne : src = []
    · rw [hne]
      exact Or.inl .done
    rw [writeAlloc_cons _ _ _ _ hne] at hw
    obtain ⟨⟨b, rest | rest⟩, hfill, hw⟩ := Option.bind_eq_some_iff.mp hw
    · obtain ⟨hlt, happ⟩ := fill_kept hfill
      obtain ⟨rfl, hroom⟩ := append_alloc_some happ
      obtain rfl := congrArg Prod.fst (Option.some.inj hw)
      rw [freeSize_alloc] at hlt
      have hflush : src.length + 7 ≤ s.toNat := by
        by_contra hno
        simp [setWriteEncoding, flushFunc, flush_holds, hno] at hset
      left
      by_cases h13 : 13 ≤ s.toNat
      · refine .chunk h13 ?_
        rw [show src.length - (s.toNat - 12) = 0 by omega]
        exact .done
      · exact .last (by omega) hflush
    · obtain ⟨hle, happ, rfl⟩ := fill_full hfill
      obtain ⟨rfl, hroom⟩ := append_alloc_some happ
      obtain ⟨bytes, hflush, hw⟩ := Option.bind_eq_some_iff.mp hw
      rw [freeSize_alloc] at *
      rw [List.length_take, Nat.min_eq_left hle] at hroom
      rw [flush_holds, List.length_take, Nat.min_eq_left hle] at hflush
      split at hflush
      · obtain rfl := Option.some.inj hflush
        by_cases h12 : s.toNat = 12
        · -- an empty chunk
          right
          refine ⟨[], by simp, ?_⟩
          have hpre := (writeAlloc_sent hw).trans (setWriteEncoding_sent hset)
          rw [show (s.toNat + 65524) % 65536 = 0 by omega, List.take_zero] at hpre
          rwa [List.flatMap_nil, List.append_nil]
        · have hfree : (s.toNat + 65524) % 65536 = s.toNat - 12 := by omega
          rw [hfree] at hw hle
          obtain hfit | ⟨chunks, hchunks, hpre⟩ := ih (fun s hs => hmax s (List.mem_cons_of_mem _ hs)) hw
          · left
            rw [List.length_drop] at hfit
            exact .chunk (by omega) hfit
          · right
            refine ⟨src.take (s.toNat - 12) :: chunks, ?_, ?_⟩
            · intro c hc
              obtain rfl | hc := List.mem_cons.mp hc
              · have hlen : (src.take (s.toNat - 12)).length = s.toNat - 12 := by
                  rw [List.length_take, Nat.min_eq_left hle]
                exact ⟨List.ne_nil_of_length_pos (by omega), by omega⟩
              · exact hchunks c hc
            · rw [List.flatMap_cons, ← List.append_assoc]
              exact hpre
      · cases hflush

/-- Without encoding every buffer is good, if it is not empty. -/
theorem writeAlloc_plain (sizes : List UInt16) (sent src : List UInt8) :
    ∃ st ok, writeAlloc .none sizes sent src = some (st, ok) ∧
      (ok = true → ∃ left, st.flushFunc = some ⟨.none, none, left, sent ++ src⟩ ∧ left <:+ sizes ∧
        ((∀ s ∈ sizes, 0 < s.toNat) → sizes.length ≤ left.length + src.length)) ∧
      ((∀ s ∈ sizes, 0 < s.toNat) → src.length ≤ sizes.length → ok = true) := by
  have hnil : ∀ (sizes : List UInt16) (sent : List UInt8), ∃ left,
      (⟨.none, none, sizes, sent⟩ : HttpStream).flushFunc = some ⟨.none, none, left, sent ++ []⟩ ∧
        left <:+ sizes ∧ ((∀ s ∈ sizes, 0 < s.toNat) → sizes.length ≤ left.length + 0) :=
    fun sizes sent => ⟨sizes, by rw [List.append_nil]; rfl, List.suffix_rfl, fun _ => le_rfl⟩
  induction sizes generalizing sent src with
  | nil =>
    refine ⟨_, _, rfl, ?_, ?_⟩
    · intro hsrc
      obtain rfl := List.isEmpty_iff.mp hsrc
      exact hnil [] sent
    · intro _ hlen
      simpa using hlen
  | cons s sizes ih =>
    by_cases hne : src = []
    · rw [hne, writeAlloc_nil]
      exact ⟨_, _, rfl, fun _ => hnil _ _, fun _ _ => rfl⟩
    have hfree : (TxBuf.alloc .none s).freeSize.toNat = s.toNat := by
      simp [TxBuf.alloc, TxBuf.freeSize, TxBuf.txLen]
    have happ : ∀ bs : List UInt8, bs.length ≤ s.toNat →
        (TxBuf.alloc .none s).append bs = some ⟨s, s, bs⟩ := by
      intro bs hbs
      rw [TxBuf.alloc, TxBuf.append, if_pos (by simpa using hbs)]
      rfl
    rw [writeAlloc_cons _ _ _ _ hne, TxBuf.fill, hfree]
    by_cases hlt : s.toNat > src.length
    · rw [if_pos hlt, happ src (by omega)]
      have hlen := List.length_pos_of_ne_nil hne
      refine ⟨_, _, rfl, fun _ => ⟨sizes, rfl, List.suffix_cons s sizes, fun _ => ?_⟩, fun _ _ => rfl⟩
      rw [List.length_cons]
      omega
    · have htake : (src.take s.toNat).length = s.toNat := by
        rw [List.length_take]
        omega
      obtain ⟨st, ok, hw, hsent, hok⟩ := ih (sent ++ src.take s.toNat) (src.drop s.toNat)
      rw [if_neg hlt, happ (src.take s.toNat) htake.le]
      refine ⟨st, ok, hw, fun h => ?_, fun hpos hlen => hok (fun s hs => hpos s (List.mem_cons_of_mem _ hs)) ?_⟩
      · obtain ⟨left, hflush, hsuf, hcount⟩ := hsent h
        rw [List.append_assoc, List.take_append_drop] at hflush
        refine ⟨left, hflush, hsuf.trans (List.suffix_cons s sizes), fun hpos => ?_⟩
        have hs := hpos s List.mem_cons_self
        have := hcount fun s hs => hpos s (List.mem_cons_of_mem _ hs)
        rw [List.length_drop] at this
        rw [List.length_cons]
        omega
      · have := hpos s List.mem_cons_self
        rw [List.length_cons] at hlen
        rw [List.length_drop]
        omega

end HttpStream

def bodyFooter : List UInt8 := [chZero, chCr, chLf, chCr, chLf]

/-- A body is one write, the footer behind it and a flush. -/
theorem writeBody_iff (sizes : List UInt16) (calls : List BodyCall) (stf : HttpStream) :
    writeBody sizes calls = some (stf, true) ↔ ∃ st st1 st2,
      HttpStream.writeAlloc .chunked sizes [] (calls.flatMap BodyCall.bytes) = some (st, true) ∧
      st.setWriteEncoding .none = some st1 ∧ st1.writeFunc bodyFooter = some (st2, true) ∧
      st2.flushFunc = some stf := by
  have hstart : writeBody sizes calls =
      (runCalls ⟨⟨.chunked, none, sizes, []⟩, true, false⟩ calls).bind fun w =>
        w.close.bind fun r => some (r.1.stream, r.2) := rfl
  have hfresh : (⟨.chunked, none, sizes, []⟩ : HttpStream).writeFunc (calls.flatMap BodyCall.bytes) =
      HttpStream.writeAlloc .chunked sizes [] (calls.flatMap BodyCall.bytes) := rfl
  rw [hstart, runCalls_eq, BodyWriter.written]
  simp only [Bool.false_eq_true, if_false, hfresh]
  cases hw : HttpStream.writeAlloc .chunked sizes [] (calls.flatMap BodyCall.bytes) with
  | none => simp
  | some r =>
    obtain ⟨st, ok⟩ := r
    cases ok with
    | false => simp [BodyWriter.close]
    | true =>
      cases hs : st.setWriteEncoding .none with
      | none => simp [BodyWriter.close, hs]
      | some st1 =>
        have hfooter : [chZero, chCr, chLf, chCr, chLf] = bodyFooter := rfl
        cases hw2 : st1.writeFunc bodyFooter with
        | none => simp [BodyWriter.close, hs, hfooter, hw2]
        | some r2 =>
          obtain ⟨st2, ok2⟩ := r2
          cases ok2 with
          | false => simp [BodyWriter.close, hs, hfooter, hw2]
          | true =>
            simp only [BodyWriter.close, hs, hfooter, hw2, Option.map_some, Option.bind_some,
              Bool.false_eq_true, if_false, if_true]
            cases hf : st2.flushFunc <;> simp [hs, hw2, hf]

/-- However the stream is read, the bytes so far are a beginning of `data`, and the end is
reported at its last byte, with all of `data`. -/
def Decodes (stream data : List UInt8) : Prop :=
  ∀ (p : BasicBodyParser) (len : UInt32) (calls : List ReadCall),
    let r := readBody (parseInit p .chunked len) stream calls
    r.errorAt = none ∧ r.body <+: data ∧
      (r.parser.status = .eob → r.body = data ∧ r.taken = stream.length) ∧
      (r.taken = stream.length → r.parser.status = .eob)

theorem init_verdict (p : BasicBodyParser) (len : UInt32) (stream : List UInt8)
    (calls : List ReadCall) :
    (readBody (parseInit p .chunked len) stream calls).verdict =
      chunkedStep.run (parseInit p .chunked len)
        (stream.take (readBody (parseInit p .chunked len) stream calls).looked) :=
  readBody_verdict rfl BodySt.noConfusion

theorem decodes_of_run {stream data : List UInt8}
    (h : ∀ p len, chunkedStep.run (parseInit p .chunked len) stream = .done stream.length data) :
    Decodes stream data := by
  intro p len calls
  have hv := init_verdict p len stream calls
  have hrun := h p len
  generalize readBody (parseInit p .chunked len) stream calls = r at hv
  have hsplit := List.take_append_drop r.looked stream
  cases he : r.errorAt with
  | some i =>
    rw [BodyRun.verdict, he] at hv
    rw [← hsplit, Scanner.run_append_of_fail hv.symm] at hrun
    cases hrun
  | none =>
    have hlooked : r.looked = r.taken := by rw [BodyRun.looked, he]
    rw [BodyRun.verdict, he, endOf] at hv
    by_cases heob : r.parser.status = .eob
    · rw [if_pos heob] at hv
      rw [← hsplit, Scanner.run_append_of_done hv.symm, hsplit] at hrun
      obtain ⟨htaken, hbody⟩ := Verdict.done.inj hrun
      exact ⟨he, hbody ▸ List.prefix_rfl, fun _ => ⟨hbody, htaken⟩, fun _ => heob⟩
    · rw [if_neg heob] at hv
      refine ⟨he, ?_, fun h => absurd h heob, fun hall => ?_⟩
      · rw [← hsplit, Scanner.run_append_of_pending hv.symm] at hrun
        cases hr : chunkedStep.run r.parser (stream.drop r.looked) with
        | pending q o => rw [hr] at hrun; cases hrun
        | fail n => rw [hr] at hrun; cases hrun
        | done n o =>
          rw [hr] at hrun
          obtain ⟨-, hdata⟩ := Verdict.done.inj hrun
          exact ⟨o, hdata⟩
      · rw [hlooked, hall, List.take_length, hrun] at hv
        cases hv

/-- A body that ends before its stream does is not read back. -/
theorem not_decodes_of_early {stream data out : List UInt8} {n : Nat} {p : BasicBodyParser}
    {len : UInt32} (h : chunkedStep.run (parseInit p .chunked len) stream = .done n out)
    (hn : n < stream.length) : ¬ Decodes stream data := by
  intro hdec
  obtain ⟨calls, hcalls⟩ := exists_calls (p := parseInit p .chunked len) stream rfl BodySt.noConfusion
  obtain ⟨herr, -, heob, hall⟩ := hdec p len calls
  have hv := init_verdict p len stream calls
  generalize readBody (parseInit p .chunked len) stream calls = r at *
  have hlooked : r.looked = r.taken := by rw [BodyRun.looked, herr]
  rw [BodyRun.verdict, herr, endOf] at hv
  rw [BodyRun.verdict, herr, endOf] at hcalls
  by_cases hst : r.parser.status = .eob
  · rw [if_pos hst, hlooked, (heob hst).2, List.take_length, h] at hv
    have := (Verdict.done.inj hv).1
    omega
  · rw [if_neg hst] at hv hcalls
    have hstream : stream = stream.take r.looked := by
      by_contra hne
      exact hcalls hne _ _ rfl
    rw [← hstream, h] at hv
    cases hv

theorem run_chunks {p : BasicBodyParser} {chunks : List (List UInt8)} (rest : List UInt8)
    (hst : p.status = .chunkHeaderStart) (h0 : p.recvLen = 0)
    (hchunks : ∀ c ∈ chunks, c ≠ [] ∧ c.length < 4096) :
    chunkedStep.run p (chunks.flatMap chunkBytes ++ rest) =
      (chunkedStep.run p rest).after (chunks.flatMap chunkBytes).length chunks.flatten := by
  induction chunks with
  | nil => simp
  | cons c chunks ih =>
    obtain ⟨hne, hlen⟩ := hchunks c List.mem_cons_self
    rw [List.flatMap_cons, List.append_assoc, run_chunk _ hst h0 hne hlen,
      ih fun d hd => hchunks d (List.mem_cons_of_mem c hd), Verdict.after_after,
      List.length_append, List.flatten_cons]

/-- The sizes that `allocSendBuf` may hand out, one call after the other: a frame of 1514 bytes
less its headers is the most. -/
structure SendSizes where
  size : Nat → UInt16
  pos : ∀ k, 0 < (size k).toNat
  le_max : ∀ k, (size k).toNat ≤ 1460

def SendSizes.first (sizes : SendSizes) (n : Nat) : List UInt16 := (List.range n).map sizes.size

theorem SendSizes.first_add (sizes : SendSizes) (m n : Nat) :
    ∃ more, sizes.first (m + n) = sizes.first m ++ more := by
  rw [first, List.range_add, List.map_append]
  exact ⟨_, rfl⟩

/-- The writer comes to an end, all its stores are inside the buffers, and the reader gets back
what was written. -/
def WriterAgrees (sizes : SendSizes) (calls : List BodyCall) : Prop :=
  ∃ n st, writeBody (sizes.first n) calls = some (st, true) ∧
    Decodes st.sent (calls.flatMap BodyCall.bytes)

/-- Behind the last flush the stream has no buffer and no encoding. -/
theorem footer_written {st st1 st2 stf : HttpStream} (hwe : st.weType = .chunked)
    (hset : st.setWriteEncoding .none = some st1) (hw : st1.writeFunc bodyFooter = some (st2, true))
    (hflush : st2.flushFunc = some stf) : stf.sent = st1.sent ++ bodyFooter := by
  have hst1 : st1.weType = .none ∧ st1.txb = none := by
    rw [HttpStream.setWriteEncoding, hwe, if_neg TransferEncoding.noConfusion] at hset
    obtain ⟨st', hst', rfl⟩ := Option.map_eq_some_iff.mp hset
    refine ⟨rfl, ?_⟩
    unfold HttpStream.flushFunc at hst'
    cases hb : st.txb with
    | none =>
      simp only [hb] at hst'
      obtain rfl := Option.some.inj hst'
      exact hb
    | some b =>
      simp only [hb] at hst'
      obtain ⟨bytes, -, rfl⟩ := Option.map_eq_some_iff.mp hst'
      rfl
  obtain ⟨st3, ok, hplain, hsent, -⟩ := HttpStream.writeAlloc_plain st1.sizes st1.sent bodyFooter
  rw [HttpStream.writeFunc, hst1.1, hst1.2] at hw
  simp only [hplain, Option.some.injEq, Prod.mk.injEq] at hw
  obtain ⟨rfl, rfl⟩ := hw
  obtain ⟨left, hst', -⟩ := hsent rfl
  rw [hflush] at hst'
  rw [Option.some.inj hst']

theorem writeAlloc_weType {we : TransferEncoding} {sizes : List UInt16} {sent src : List UInt8}
    {r : HttpStream × Bool} (h : HttpStream.writeAlloc we sizes sent src = some r) :
    r.1.weType = we := by
  induction sizes generalizing sent src with
  | nil => exact Option.some.inj h ▸ rfl
  | cons s sizes ih =>
    by_cases hne : src = []
    · rw [hne, HttpStream.writeAlloc_nil] at h
      exact Option.some.inj h ▸ rfl
    · rw [HttpStream.writeAlloc_cons _ _ _ _ hne] at h
      obtain ⟨⟨b, rest | rest⟩, -, h⟩ := Option.bind_eq_some_iff.mp h
      · exact Option.some.inj h ▸ rfl
      · obtain ⟨bytes, -, h⟩ := Option.bind_eq_some_iff.mp h
        exact ih h

theorem SendSizes.mem_first {sizes : SendSizes} {n : Nat} {s : UInt16} (hs : s ∈ sizes.first n) :
    0 < s.toNat ∧ s.toNat ≤ 1460 := by
  obtain ⟨k, -, rfl⟩ := List.mem_map.mp hs
  exact ⟨sizes.pos k, sizes.le_max k⟩

theorem fits_of_writerAgrees {sizes : SendSizes} {calls : List BodyCall}
    (h : WriterAgrees sizes calls) :
    ∃ n, SizesFit (sizes.first n) (calls.flatMap BodyCall.bytes).length := by
  obtain ⟨n, stf, hbody, hdec⟩ := h
  obtain ⟨st, st1, st2, halloc, hset, hfoot, hflush⟩ := (writeBody_iff _ _ _).mp hbody
  refine ⟨n, (HttpStream.fits_of_writeAlloc (fun s hs => (SendSizes.mem_first hs).2) halloc
    hset).resolve_right ?_⟩
  rintro ⟨chunks, hchunks, t, ht⟩
  have hsent := footer_written (writeAlloc_weType halloc) hset hfoot hflush
  rw [← ht, List.nil_append, List.append_assoc, List.append_assoc] at hsent
  have hrun := run_chunks (p := parseInit ⟨.none, .null, 0, 0⟩ .chunked 0)
    (chunkBytes [] ++ (t ++ bodyFooter)) rfl rfl hchunks
  rw [run_emptyChunk _ rfl rfl, ← hsent] at hrun
  refine not_decodes_of_early hrun ?_ hdec
  rw [hsent]
  simp [chunkBytes, putChunkedHeader, bodyFooter]

theorem writerAgrees_of_fits {sizes : SendSizes} {calls : List BodyCall} {n : Nat}
    (hfit : SizesFit (sizes.first n) (calls.flatMap BodyCall.bytes).length) :
    WriterAgrees sizes calls := by
  -- enough buffers for every byte and for the footer
  have hsplit := sizes.first_add n ((calls.flatMap BodyCall.bytes).length + 5)
  generalize hN : n + ((calls.flatMap BodyCall.bytes).length + 5) = N at hsplit
  obtain ⟨more, hmore⟩ := hsplit
  have hfitN : SizesFit (sizes.first N) (calls.flatMap BodyCall.bytes).length :=
    hmore ▸ hfit.append more
  obtain ⟨chunks, hflat, hchunks, st, left, halloc, hset, hsuf, hcount⟩ :=
    HttpStream.carries_of_fits [] (fun s hs => (SendSizes.mem_first hs).2) hfitN rfl
  have hpos : ∀ s ∈ left, 0 < s.toNat := fun s hs => (SendSizes.mem_first (hsuf.subset hs)).1
  have hleft : bodyFooter.length ≤ left.length := by
    rw [SendSizes.first, List.length_map, List.length_range] at hcount
    change 5 ≤ left.length
    omega
  obtain ⟨st2, ok, hplain, hsent, hok⟩ :=
    HttpStream.writeAlloc_plain left ([] ++ chunks.flatMap chunkBytes) bodyFooter
  obtain rfl := hok hpos hleft
  obtain ⟨_, hflush, -⟩ := hsent rfl
  refine ⟨N, _, (writeBody_iff _ _ _).mpr ⟨st, _, st2, halloc, hset, hplain, hflush⟩, ?_⟩
  refine decodes_of_run fun p len => ?_
  rw [List.nil_append, run_chunks bodyFooter rfl rfl hchunks, bodyFooter,
    run_footer rfl rfl, hflat, List.length_append, Verdict.after, List.append_nil]
  rfl

/-- The reader gets back what was written for exactly the sizes that fit. -/
theorem writerAgrees_iff (sizes : SendSizes) (calls : List BodyCall) :
    WriterAgrees sizes calls ↔
      ∃ n, SizesFit (sizes.first n) (calls.flatMap BodyCall.bytes).length :=
  ⟨fits_of_writerAgrees, fun ⟨_, hfit⟩ => writerAgrees_of_fits hfit⟩

/-- Buffers of twelve bytes have room for the frame of a chunk and for no data. -/
theorem not_writerAgrees_twelve :
    ¬ WriterAgrees ⟨fun _ => 12, fun _ => by decide, fun _ => by decide⟩
      [.write [0x61] (by decide)] := by
  intro h
  obtain ⟨n, hfit⟩ := fits_of_writerAgrees h
  cases n with
  | zero => cases hfit
  | succ n =>
    rw [SendSizes.first, List.range_succ_eq_map, List.map_cons] at hfit
    cases hfit with
    | chunk h13 _ => exact absurd h13 (by decide)
    | last h11 _ => exact absurd h11 (by decide)

end MiMic.Http
