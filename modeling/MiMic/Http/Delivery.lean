import MiMic.Http.ChunkedGrammar
import MiMic.Http.ChunkedWriter

/-!
# A stream that takes what is written

With send buffers in which a chunk has room for a byte, and one of them for every byte, no write
fails. What was written then stands on the wire as its encoding says, once the stream is flushed.
-/
namespace MiMic.Http

/-- What the encoding makes of the data. -/
def Encodes : TransferEncoding → List UInt8 → List UInt8 → Prop
  | .none, data, out => out = data
  | .chunked, data, out => ∃ chunks : List (List UInt8), chunks.flatten = data ∧
      (∀ c ∈ chunks, c ≠ [] ∧ c.length < 4096) ∧ out = chunks.flatMap chunkBytes

/-- At least `k` buffers are to come, each of them large enough. -/
structure Supply (k : Nat) (sizes : List UInt16) : Prop where
  room : ∀ s ∈ sizes, 13 ≤ s.toNat ∧ s.toNat ≤ 1460
  enough : k ≤ sizes.length

theorem Supply.suffix {k n : Nat} {sizes left : List UInt16} (h : Supply (n + k) sizes)
    (hsuf : left <:+ sizes) (hcount : sizes.length ≤ left.length + n) : Supply k left := by
  have henough := h.enough
  exact ⟨fun s hs => h.room s (hsuf.subset hs), by omega⟩

theorem SizesFit.of_room {sizes : List UInt16} {n : Nat} (h : ∀ s ∈ sizes, 13 ≤ s.toNat)
    (hn : n ≤ sizes.length) : SizesFit sizes n := by
  induction sizes generalizing n with
  | nil =>
    rw [Nat.le_zero.mp hn]
    exact .done
  | cons s sizes ih =>
    have h13 := h s List.mem_cons_self
    rw [List.length_cons] at hn
    exact .chunk h13 (ih (fun s hs => h s (List.mem_cons_of_mem _ hs)) (by omega))

namespace HttpStream

/-- Nothing waits to be sent. -/
def settled (we : TransferEncoding) (sizes : List UInt16) (sent : List UInt8) : HttpStream :=
  ⟨we, none, sizes, sent⟩

/-- Data written to a settled stream: no write fails, and a flush settles the stream again. -/
theorem writes_settle (we : TransferEncoding) {sizes : List UInt16} {k : Nat} {data : List UInt8}
    (sent : List UInt8) (h : Supply (data.length + k) sizes) :
    ∃ st left out, writeAlloc we sizes sent data = some (st, true) ∧
      st.flushFunc = some (settled we left (sent ++ out)) ∧ Encodes we data out ∧ Supply k left := by
  have hlen : data.length ≤ sizes.length := (Nat.le_add_right _ k).trans h.enough
  cases we with
  | none =>
    have hpos : ∀ s ∈ sizes, 0 < s.toNat := fun s hs => lt_of_lt_of_le (by decide) (h.room s hs).1
    obtain ⟨st, ok, hw, hflush, hok⟩ := writeAlloc_plain sizes sent data
    obtain rfl := hok hpos hlen
    obtain ⟨left, hleft, hsuf, hcount⟩ := hflush rfl
    exact ⟨st, left, data, hw, hleft, rfl, h.suffix hsuf (hcount hpos)⟩
  | chunked =>
    have hfit := SizesFit.of_room (fun s hs => (h.room s hs).1) hlen
    obtain ⟨chunks, hflat, hchunks, st, left, hw, hset, hsuf, hcount⟩ :=
      carries_of_fits sent (fun s hs => (h.room s hs).2) hfit rfl
    have hwe := writeAlloc_weType hw
    refine ⟨st, left, chunks.flatMap chunkBytes, hw, ?_, ⟨chunks, hflat, hchunks, rfl⟩,
      h.suffix hsuf hcount⟩
    rw [setWriteEncoding, hwe, if_neg TransferEncoding.noConfusion] at hset
    obtain ⟨st', hflush, hst'⟩ := Option.map_eq_some_iff.mp hset
    rw [hflush]
    have hwe' : st'.weType = .chunked := by
      rw [flushFunc] at hflush
      cases hb : st.txb with
      | none =>
        simp only [hb] at hflush
        exact Option.some.inj hflush ▸ hwe
      | some b =>
        simp only [hb] at hflush
        obtain ⟨bytes, -, rfl⟩ := Option.map_eq_some_iff.mp hflush
        exact hwe
    obtain ⟨we', txb, sizes', sent'⟩ := st'
    simp only [HttpStream.mk.injEq, true_and] at hst'
    obtain ⟨rfl, rfl, rfl⟩ := hst'
    obtain rfl : we' = .chunked := hwe'
    rfl

/-- `data` was written to a stream that was settled at `sent`; buffers for `k` more bytes are
left. -/
def Pending (we : TransferEncoding) (sent data : List UInt8) (k : Nat) (st : HttpStream) : Prop :=
  ∃ sizes, Supply (data.length + k) sizes ∧ writeAlloc we sizes sent data = some (st, true)

theorem pending_settled (we : TransferEncoding) {sizes : List UInt16} {k : Nat}
    (sent : List UInt8) (h : Supply k sizes) : Pending we sent [] k (settled we sizes sent) :=
  ⟨sizes, by simpa using h, writeAlloc_nil _ _ _⟩

variable {we : TransferEncoding} {sent data : List UInt8} {k : Nat} {st : HttpStream}

theorem Pending.weType (h : Pending we sent data k st) : st.weType = we := by
  obtain ⟨sizes, -, hw⟩ := h
  exact writeAlloc_weType hw

theorem Pending.mono {n : Nat} (h : Pending we sent data n st) (hn : k ≤ n) :
    Pending we sent data k st := by
  obtain ⟨sizes, hsup, hw⟩ := h
  have henough := hsup.enough
  exact ⟨sizes, ⟨hsup.room, by omega⟩, hw⟩

theorem Pending.writeFunc (src : List UInt8) (h : Pending we sent data (src.length + k) st) :
    ∃ st', st.writeFunc src = some (st', true) ∧ Pending we sent (data ++ src) k st' := by
  obtain ⟨sizes, hsup, hw⟩ := h
  have hsup' : Supply ((data ++ src).length + k) sizes := by
    rw [List.length_append, Nat.add_assoc]
    exact hsup
  obtain ⟨st', -, -, hw', -⟩ := writes_settle we sent hsup'
  have happ := writeAlloc_append we sizes sent data src
  rw [hw, hw'] at happ
  exact ⟨st', happ.symm, sizes, hsup', hw'⟩

theorem Pending.flush (h : Pending we sent data k st) :
    ∃ left out, st.flushFunc = some (settled we left (sent ++ out)) ∧ Encodes we data out ∧
      Supply k left := by
  obtain ⟨sizes, hsup, hw⟩ := h
  obtain ⟨st', left, out, hw', hflush, hout, hleft⟩ := writes_settle we sent hsup
  rw [hw, Option.some.injEq, Prod.mk.injEq] at hw'
  obtain ⟨rfl, -⟩ := hw'
  exact ⟨left, out, hflush, hout, hleft⟩

end HttpStream

theorem chunkSize_header {data : List UInt8} (h : data.length < 4096) :
    ∃ ds, ChunkSize ds data.length ∧ chunkBytes data = ds ++ crlf ++ data ++ crlf := by
  obtain ⟨h1, h2, h3, hvalue⟩ := headerDigits (UInt16.ofNat data.length)
  have hd1 := chunkDigit_spec h1
  have hd2 := chunkDigit_spec h2
  have hd3 := chunkDigit_spec h3
  have hnat : (UInt16.ofNat data.length).toNat = data.length := by
    rw [UInt16.toNat_ofNat']
    omega
  generalize hv : UInt16.ofNat data.length = v at *
  refine ⟨[chunkDigit ((v &&& 0x0f00) >>> 8), chunkDigit ((v &&& 0x00f0) >>> 4),
    chunkDigit (v &&& 0x000f)], ⟨List.cons_ne_nil _ _, ?_, ?_, ?_⟩, ?_⟩
  · intro c hc
    simp only [List.mem_cons, List.not_mem_nil, or_false] at hc
    obtain rfl | rfl | rfl := hc
    · exact hd1.1
    · exact hd2.1
    · exact hd3.1
  · simp only [hexValue, List.foldl_cons, List.foldl_nil, hd1.2, hd2.2, hd3.2]
    omega
  · have hmax : maxChunkSize = 0x0fffffff := rfl
    omega
  · simp [chunkBytes, putChunkedHeader, crlf, hv]

/-- A chunk without data ends the body. -/
theorem chunked_emptyChunk : Chunked (chunkBytes []) [] := by
  obtain ⟨ds, hsize, hbytes⟩ := @chunkSize_header [] (by decide)
  rw [hbytes]
  simpa using Chunked.last hsize .none

theorem chunked_footer : Chunked bodyFooter [] := chunked_empty

/-- Chunks behind one another and the footer are a chunked body. -/
theorem chunked_of_encodes {data out : List UInt8} (h : Encodes .chunked data out) :
    Chunked (out ++ bodyFooter) data := by
  obtain ⟨chunks, rfl, hchunks, rfl⟩ := h
  induction chunks with
  | nil => exact chunked_footer
  | cons c chunks ih =>
    obtain ⟨hne, hlen⟩ := hchunks c List.mem_cons_self
    obtain ⟨ds, hsize, hbytes⟩ := chunkSize_header hlen
    have hrest := ih fun d hd => hchunks d (List.mem_cons_of_mem c hd)
    rw [List.flatMap_cons, List.flatten_cons, List.append_assoc, hbytes]
    simpa using Chunked.chunk hsize hne .none hrest

end MiMic.Http
