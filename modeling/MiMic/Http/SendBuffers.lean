import MiMic.Http.ChunkedWriter
import MiMic.Tcp.SendBuffers

/-!
# The buffers that a stream writes into

A chunked stream keeps five bytes at the front of a buffer and seven less at its end, so it
needs thirteen to make progress; without encoding one is enough. The stream writes through
what `allocSendBuf` returned, in any order and number of calls.
-/
namespace MiMic.Http

open Verif MiMic.Tcp

def TransferEncoding.need : TransferEncoding → UInt16
  | .chunked => 13
  | .none => 1

/-- The buffer that the next round of the loop in `write_func` fills. -/
def HttpStream.current (st : HttpStream) : Option TxBuf :=
  match st.txb, st.sizes with
  | some b, _ => some b
  | none, s :: _ => some (TxBuf.alloc st.weType s)
  | none, [] => none

/-- A stream after some calls, over buffers of the sizes `caps`. It may be switched to the
encoding `et`. The loop stands between two rounds where a shorter write would have ended. -/
inductive Written (et : TransferEncoding) (caps : List UInt16) : HttpStream → Prop
  | init {sizes} : (∀ s ∈ sizes, s ∈ caps) → Written et caps ⟨.none, none, sizes, []⟩
  | encode {st st' e} : Written et caps st → e = .none ∨ e = et →
      st.setWriteEncoding e = some st' → Written et caps st'
  | write {st st' src ok} : Written et caps st → st.writeFunc src = some (st', ok) →
      Written et caps st'
  | flush {st st'} : Written et caps st → st.flushFunc = some st' → Written et caps st'

/-- The buffers can be used: each has room and lies in its block, so that every round of the
loop stores inside of it and takes a byte at least, and a write ends after as many buffers as
it has bytes, or before. -/
structure UsableBuffers (et : TransferEncoding) (returned : List Returned) : Prop where
  capacity : ∀ r ∈ returned, 1 ≤ r.size.toNat ∧ r.size.toNat + 40 ≤ r.block.toNat
  consumes : ∀ st, Written et (returned.map Returned.size) st → ∀ b, st.current = some b →
    ∀ src, src ≠ [] → ∃ r, b.fill src = some r ∧ (r.2.getD []).length < src.length
  terminates : ∀ st, Written et (returned.map Returned.size) st →
    ∀ src, src.length ≤ st.sizes.length → ∃ st', st.writeFunc src = some (st', true)

/-- The room that is counted lies in the buffer, with the line end of a chunk behind it. -/
structure HasRoom (we : TransferEncoding) (b : TxBuf) : Prop where
  pos : 0 < b.freeSize.toNat
  need : we.need.toNat ≤ b.size.toNat
  inside : b.bytes.length + b.freeSize.toNat + (if we = .chunked then 2 else 0) ≤ b.size.toNat

theorem one_le_need (et : TransferEncoding) : 1 ≤ et.need.toNat := by cases et <;> decide

theorem need_le (et : TransferEncoding) : et.need.toNat ≤ 74 := by cases et <;> decide

theorem hasRoom_alloc {we : TransferEncoding} {s : UInt16} (h : we.need.toNat ≤ s.toNat) :
    HasRoom we (TxBuf.alloc we s) := by
  cases we with
  | none =>
    have hfree : (TxBuf.alloc .none s).freeSize.toNat = s.toNat := by
      simp [TxBuf.alloc, TxBuf.freeSize, TxBuf.txLen]
    refine ⟨by rw [hfree]; exact h, h, ?_⟩
    rw [hfree]
    exact (Nat.zero_add _).le
  | chunked =>
    have h13 : 13 ≤ s.toNat := h
    have hlt := s.toNat_lt
    have hfree : (TxBuf.alloc .chunked s).freeSize.toNat = s.toNat - 12 := by
      rw [freeSize_alloc]
      omega
    refine ⟨by omega, h, ?_⟩
    rw [hfree]
    show 5 + (s.toNat - 12) + 2 ≤ s.toNat
    omega

theorem append_some (b : TxBuf) {src : List UInt8}
    (h : b.bytes.length + src.length ≤ b.size.toNat) :
    b.append src = some { b with bytes := b.bytes ++ src } := by
  rw [TxBuf.append, if_pos h]

theorem fill_room_kept {we : TransferEncoding} {b : TxBuf} {src : List UInt8} (h : HasRoom we b)
    (hlt : src.length < b.freeSize.toNat) :
    ∃ b', b.fill src = some (b', none) ∧ HasRoom we b' := by
  have hin := h.inside
  have ha := append_some b (show b.bytes.length + src.length ≤ b.size.toNat by omega)
  have hfree := TxBuf.freeSize_append ha hlt
  have hf : b.fill src = some ({ b with bytes := b.bytes ++ src }, none) := by
    rw [TxBuf.fill, if_pos hlt, ha]
    rfl
  refine ⟨_, hf, by omega, h.need, ?_⟩
  rw [hfree, List.length_append]
  show _ ≤ b.size.toNat
  omega

theorem fill_room_full {we : TransferEncoding} {b : TxBuf} {src : List UInt8} (h : HasRoom we b)
    (hle : b.freeSize.toNat ≤ src.length) :
    ∃ b' bytes, b.fill src = some (b', some (src.drop b.freeSize.toNat)) ∧
      b'.flush we = some bytes := by
  have hin := h.inside
  have htake : (src.take b.freeSize.toNat).length = b.freeSize.toNat := by
    rw [List.length_take]
    omega
  have ha := append_some b
    (show b.bytes.length + (src.take b.freeSize.toNat).length ≤ b.size.toNat by omega)
  have hf : b.fill src = some ({ b with bytes := b.bytes ++ src.take b.freeSize.toNat },
      some (src.drop b.freeSize.toNat)) := by
    rw [TxBuf.fill, if_neg (by omega), ha]
    rfl
  cases we with
  | none => exact ⟨_, _, hf, rfl⟩
  | chunked =>
    have h13 : 13 ≤ b.size.toNat := h.need
    have hroom : (b.bytes ++ src.take b.freeSize.toNat).length + 2 ≤ b.size.toNat := by
      rw [List.length_append, htake]
      exact hin
    exact ⟨_, _, hf, if_pos ⟨by dsimp only; omega, hroom⟩⟩

/-- A round of the loop stores inside of the buffer and takes a byte at least. -/
theorem fill_consumes {we : TransferEncoding} {b : TxBuf} {src : List UInt8} (h : HasRoom we b)
    (hne : src ≠ []) : ∃ r, b.fill src = some r ∧ (r.2.getD []).length < src.length := by
  have hpos := List.length_pos_of_ne_nil hne
  by_cases hlt : src.length < b.freeSize.toNat
  · obtain ⟨b', hf, -⟩ := fill_room_kept h hlt
    exact ⟨_, hf, hpos⟩
  · obtain ⟨b', bytes, hf, -⟩ := fill_room_full h (not_lt.mp hlt)
    refine ⟨_, hf, ?_⟩
    rw [Option.getD_some, List.length_drop]
    have := h.pos
    omega

/-- Every buffer of the stream has room, the one in use for the encoding it was set up with. -/
structure StreamFits (et : TransferEncoding) (caps : List UInt16) (st : HttpStream) : Prop where
  encoding : st.weType = .none ∨ st.weType = et
  sizes : ∀ s ∈ st.sizes, s ∈ caps
  room : ∀ b, st.txb = some b → HasRoom st.weType b

variable {et : TransferEncoding} {caps : List UInt16}

theorem need_of_encoding {we : TransferEncoding} {s : UInt16} (hwe : we = .none ∨ we = et)
    (h : et.need.toNat ≤ s.toNat) : we.need.toNat ≤ s.toNat := by
  rcases hwe with rfl | rfl
  · exact (one_le_need et).trans h
  · exact h

/-- The loop without a buffer in use, by the buffers that are still to come. -/
theorem writeAlloc_fits {we : TransferEncoding} (hwe : we = .none ∨ we = et)
    (hcaps : ∀ s ∈ caps, et.need.toNat ≤ s.toNat) {sizes : List UInt16}
    (hsizes : ∀ s ∈ sizes, s ∈ caps) (sent src : List UInt8) :
    ∃ st ok, HttpStream.writeAlloc we sizes sent src = some (st, ok) ∧ StreamFits et caps st ∧
      (src.length ≤ sizes.length → ok = true) := by
  induction sizes generalizing sent src with
  | nil =>
    refine ⟨_, _, rfl, ⟨hwe, hsizes, fun b hb => by cases hb⟩, fun hlen => ?_⟩
    simpa using hlen
  | cons s sizes ih =>
    by_cases hne : src = []
    · rw [hne, HttpStream.writeAlloc_nil]
      exact ⟨_, _, rfl, ⟨hwe, hsizes, fun b hb => by cases hb⟩, fun _ => rfl⟩
    have hroom : HasRoom we (TxBuf.alloc we s) :=
      hasRoom_alloc (need_of_encoding hwe (hcaps s (hsizes s List.mem_cons_self)))
    have hrest : ∀ s' ∈ sizes, s' ∈ caps := fun s' hs => hsizes s' (List.mem_cons_of_mem s hs)
    rw [HttpStream.writeAlloc_cons _ _ _ _ hne]
    by_cases hlt : src.length < (TxBuf.alloc we s).freeSize.toNat
    · obtain ⟨b', hf, hb'⟩ := fill_room_kept hroom hlt
      rw [hf]
      refine ⟨_, _, rfl, ⟨hwe, hrest, fun b hb => ?_⟩, fun _ => rfl⟩
      obtain rfl := Option.some.inj hb
      exact hb'
    · obtain ⟨b', bytes, hf, hflush⟩ := fill_room_full hroom (not_lt.mp hlt)
      obtain ⟨st, ok, hw, hst, hok⟩ :=
        ih hrest (sent ++ bytes) (src.drop (TxBuf.alloc we s).freeSize.toNat)
      have hpos := hroom.pos
      rw [hf]
      simp only [Option.bind_some, hflush]
      refine ⟨st, ok, hw, hst, fun hlen => hok ?_⟩
      rw [List.length_drop]
      rw [List.length_cons] at hlen
      omega

theorem writeFunc_fits {st : HttpStream} (hst : StreamFits et caps st)
    (hcaps : ∀ s ∈ caps, et.need.toNat ≤ s.toNat) (src : List UInt8) :
    ∃ st' ok, st.writeFunc src = some (st', ok) ∧ StreamFits et caps st' ∧
      (src.length ≤ st.sizes.length → ok = true) := by
  cases hb : st.txb with
  | none =>
    rw [HttpStream.writeFunc, hb]
    exact writeAlloc_fits hst.encoding hcaps hst.sizes st.sent src
  | some b =>
    by_cases hne : src = []
    · rw [hne, HttpStream.writeFunc_nil]
      exact ⟨st, true, rfl, hst, fun _ => rfl⟩
    have hf : src.isEmpty = false := by simpa using hne
    have hroom := hst.room b hb
    rw [HttpStream.writeFunc, hb]
    simp only [hf, Bool.false_eq_true, if_false]
    by_cases hlt : src.length < b.freeSize.toNat
    · obtain ⟨b', hfill, hb'⟩ := fill_room_kept hroom hlt
      rw [hfill]
      refine ⟨_, _, rfl, ⟨hst.encoding, hst.sizes, fun c hc => ?_⟩, fun _ => rfl⟩
      obtain rfl := Option.some.inj hc
      exact hb'
    · obtain ⟨b', bytes, hfill, hflush⟩ := fill_room_full hroom (not_lt.mp hlt)
      obtain ⟨st', ok, hw, hst', hok⟩ := writeAlloc_fits hst.encoding hcaps hst.sizes
        (st.sent ++ bytes) (src.drop b.freeSize.toNat)
      rw [hfill]
      simp only [hflush]
      refine ⟨st', ok, hw, hst', fun hlen => hok ?_⟩
      rw [List.length_drop]
      omega

theorem flushFunc_fits {st st' : HttpStream} (hst : StreamFits et caps st)
    (h : st.flushFunc = some st') : StreamFits et caps st' ∧ st'.txb = none := by
  unfold HttpStream.flushFunc at h
  split at h
  · next hb =>
    obtain rfl := Option.some.inj h
    exact ⟨hst, hb⟩
  · obtain ⟨bytes, -, rfl⟩ := Option.map_eq_some_iff.mp h
    exact ⟨⟨hst.encoding, hst.sizes, fun b hb => by cases hb⟩, rfl⟩

theorem written_fits (hcaps : ∀ s ∈ caps, et.need.toNat ≤ s.toNat) {st : HttpStream}
    (h : Written et caps st) : StreamFits et caps st := by
  induction h with
  | init hsizes => exact ⟨Or.inl rfl, hsizes, fun b hb => by cases hb⟩
  | encode _ he hs ih =>
    unfold HttpStream.setWriteEncoding at hs
    split at hs
    · obtain rfl := Option.some.inj hs
      exact ih
    · obtain ⟨st₁, hflush, rfl⟩ := Option.map_eq_some_iff.mp hs
      obtain ⟨hfits, hnone⟩ := flushFunc_fits ih hflush
      refine ⟨he, hfits.sizes, fun b hb => ?_⟩
      rw [hnone] at hb
      cases hb
  | write _ hw ih =>
    obtain ⟨st₁, ok, hw', hfits, -⟩ := writeFunc_fits ih hcaps _
    rw [hw] at hw'
    obtain ⟨rfl, -⟩ := Prod.mk.inj (Option.some.inj hw')
    exact hfits
  | flush _ hf ih => exact (flushFunc_fits ih hf).1

theorem current_hasRoom (hcaps : ∀ s ∈ caps, et.need.toNat ≤ s.toNat) {st : HttpStream}
    (hst : StreamFits et caps st) {b : TxBuf} (h : st.current = some b) :
    HasRoom st.weType b := by
  unfold HttpStream.current at h
  split at h
  · next hb =>
    obtain rfl := Option.some.inj h
    exact hst.room _ hb
  · next s _ hb hsizes =>
    obtain rfl := Option.some.inj h
    have hs : s ∈ caps := hst.sizes s (by rw [hsizes]; exact List.mem_cons_self)
    exact hasRoom_alloc (need_of_encoding hst.encoding (hcaps s hs))
  · cases h

/-- A new stream that is switched to chunks and given one buffer. -/
theorem written_chunked {s : UInt16} (hs : s ∈ caps) :
    Written .chunked caps ⟨.chunked, none, [s], []⟩ := by
  have hnew : Written .chunked caps ⟨.none, none, [s], []⟩ := .init fun s' hs' => by
    rw [List.mem_singleton.mp hs']
    exact hs
  exact hnew.encode (Or.inr rfl) rfl

/-- With twelve bytes nothing is taken, with fewer the room wraps around. -/
theorem not_consumes_small {s : UInt16} (h : s.toNat < 13) :
    ¬ ∀ src, src ≠ [] → ∃ r, (TxBuf.alloc .chunked s).fill src = some r ∧
      (r.2.getD []).length < src.length := by
  intro hall
  have hfree := freeSize_alloc s
  by_cases h12 : s.toNat = 12
  · obtain ⟨r, hf, hlt⟩ := hall [0] (List.cons_ne_nil 0 [])
    rw [h12] at hfree
    have hnil : (TxBuf.alloc .chunked s).append [] = some (TxBuf.holds s []) :=
      alloc_append (by rw [h12]; decide)
    rw [TxBuf.fill, hfree, if_neg (by decide), List.take_zero, List.drop_zero, hnil] at hf
    obtain rfl := Option.some.inj hf
    exact absurd hlt (lt_irrefl _)
  · obtain ⟨r, hf, -⟩ := hall (List.replicate 12 0) (List.cons_ne_nil 0 _)
    have hgt : (TxBuf.alloc .chunked s).freeSize.toNat >
        (List.replicate 12 (0 : UInt8)).length := by
      rw [hfree, List.length_replicate]
      omega
    rw [TxBuf.fill, if_pos hgt] at hf
    obtain ⟨b, ha, -⟩ := Option.map_eq_some_iff.mp hf
    have hle := (append_alloc_some ha).2
    rw [List.length_replicate] at hle
    omega

theorem usableBuffers_iff {returned : List Returned}
    (hin : ∀ r ∈ returned, r.size.toNat + 40 ≤ r.block.toNat) :
    UsableBuffers et returned ↔ ∀ r ∈ returned, et.need ≤ r.size := by
  constructor
  · intro h r hr
    rw [UInt16.le_iff_toNat_le]
    cases et with
    | none => exact (h.capacity r hr).1
    | chunked =>
      by_contra hlt
      have hmem : r.size ∈ returned.map Returned.size := List.mem_map_of_mem hr
      exact not_consumes_small (not_le.mp hlt) (h.consumes _ (written_chunked hmem) _ rfl)
  · intro h
    have hcaps : ∀ s ∈ returned.map Returned.size, et.need.toNat ≤ s.toNat := by
      intro s hs
      obtain ⟨r, hr, rfl⟩ := List.mem_map.mp hs
      exact UInt16.le_iff_toNat_le.mp (h r hr)
    refine ⟨fun r hr => ⟨?_, hin r hr⟩, fun st hst b hb src hne => ?_, fun st hst src hlen => ?_⟩
    · exact (one_le_need et).trans (UInt16.le_iff_toNat_le.mp (h r hr))
    · exact fill_consumes (current_hasRoom hcaps (written_fits hcaps hst) hb) hne
    · obtain ⟨st', ok, hw, -, hok⟩ := writeFunc_fits (written_fits hcaps hst) hcaps src
      exact ⟨st', by rw [hw, hok hlen]⟩

/-- The runs in which the peer leaves room at every return are those in which every buffer can
be used. -/
theorem reaches_usableBuffers_iff (et : TransferEncoding) (p : World × BufferNote) :
    bufferSystem.Reaches (LeavesRoom et.need) p ↔
      bufferSystem.Reaches System.anyStep p ∧ UsableBuffers et p.2.returned := by
  rw [reaches_leavesRoom_iff (need_le et)]
  exact and_congr_right fun h => (usableBuffers_iff (reaches_buffersKept h).returned).symm

/-- The peer acknowledges with an MSS option of 0. -/
def mssZero : List (Act × Env) :=
  [(.rx ⟨htonl 501, htonl 3940, tcpAck, htons 100, some (some 0), [], length_nil_lt⟩, quietEnv)]

theorem not_reaches_usableBuffers : ¬ ∀ (et : TransferEncoding) (p : World × BufferNote),
    bufferSystem.Reaches System.anyStep p → UsableBuffers et p.2.returned := by
  intro h
  have hinit : bufferSystem.init (World.zeroed, .unset) := ⟨World.zeroed_initial, rfl⟩
  have hrun : (bufferSystem.run (World.zeroed, .unset) (connected ++ mssZero ++ sendBuffer)).any
      (fun p => p.2.returned == [⟨114, 0⟩]) = true := by decide +kernel
  obtain ⟨p, hp, hr⟩ := System.exists_of_run hinit hrun
  have hmem : ⟨114, 0⟩ ∈ p.2.returned := by
    rw [beq_iff_eq.mp hr]
    exact List.mem_singleton_self _
  have hcap := (h .none p hp).capacity ⟨114, 0⟩ hmem
  exact absurd hcap.1 (by decide)

end MiMic.Http
