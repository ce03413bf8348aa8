import MiMic.Core.Stdlib
import Mathlib.Tactic

/-!
# Sending over the Wi-Fi module

A send command carries bytes of the caller, and the module reports how many of them it has taken.
`psend` of a TCP socket sends until the counts have reached its length, `send` does so from a
buffer of the interface, and a UDP datagram is one command.
-/
namespace MiMic.Snic

/-- What stands in `NyLPC_TcSnicApi_t` behind a command: the signal, whether the status was a
success, and the count. -/
structure SendApi where
  signal : Bool
  success : Bool
  numberOfByteSent : UInt16

/-- The module's part in one command: how many bytes it is ready to take, if it does not fail, and
whether its answer comes before the caller gives up its registration. -/
structure SendAnswer where
  ready : Option UInt16
  inTime : Bool

/-- How many of the bytes it was given the module takes. -/
def SendAnswer.taken (r : SendAnswer) (given : UInt16) : UInt16 :=
  if given ≤ r.ready.getD 0 then given else r.ready.getD 0

/-- The wait of `sendFromSocket` and `sendUdpPacketFromSocket`. The signal is not cleared before
it: where an earlier answer has set it, an answer that is not there at once is not heard. -/
def SendApi.hear (api : SendApi) (given : UInt16) (r : SendAnswer) : SendApi :=
  if api.signal ∧ !r.inTime then api
  else
    match r.ready with
    | none => { api with signal := true, success := false }
    | some _ => ⟨true, true, r.taken given⟩

/-- A call that sends, between two rounds of its loop: what the module has taken so far. -/
inductive Sending (β : Type)
  | sending (api : SendApi) (p : UInt16) (accepted : List UInt8)
  | returned (value : β) (accepted : List UInt8)

namespace Sending

variable {β γ : Type}

def accepted : Sending β → List UInt8
  | .sending _ _ acc => acc
  | .returned _ acc => acc

def map (f : β → γ) : Sending β → Sending γ
  | .sending api p acc => .sending api p acc
  | .returned b acc => .returned (f b) acc

end Sending

/-- A round of the loop of `psend`: each command starts at the front of the buffer and asks for
its whole length. -/
def psendRound (buf : Memory) (len : UInt16) (r : SendAnswer) : Sending Bool → Sending Bool
  | .returned ok acc => .returned ok acc
  | .sending api p acc =>
      if p < len then
        let api := api.hear len r
        let acc := acc ++ buf.window 0 (r.taken len).toNat
        if api.success then .sending api (p + api.numberOfByteSent) acc else .returned false acc
      else .returned true acc

/-- `FLAGS_SOCKET_ENABLE|FLAGS_ACCEPTED`, both of them. -/
def enabled (flags : UInt8) : Bool := flags &&& 0x03 = 0x03

/-- `psend` of a TCP socket behind `k` rounds. The length is that of a buffer of `allocSendBuf`. -/
def tcpPsend (flags : UInt8) (buf : Memory) (len : UInt16) (api : SendApi)
    (answers : Nat → SendAnswer) : Nat → Sending Bool
  | 0 => if enabled flags then .sending api 0 [] else .returned true []
  | k + 1 => psendRound buf len (answers k) (tcpPsend flags buf len api answers k)

/-- `if(i_len<l){l=i_len;}` -/
def sendLength (len : Nat) (l : UInt16) : UInt16 := if len < l.toNat then UInt16.ofNat len else l

/-- `send` of a TCP socket behind `k` rounds. `NyLPC_cSnicNetIf_allocBuf` finds a block or does
not, and never stores its size, so `l` is what was on the stack; nothing is copied to the block. -/
def tcpSend (flags : UInt8) (block : Option Memory) (l : UInt16) (len : Nat) (api : SendApi)
    (answers : Nat → SendAnswer) (k : Nat) : Sending Int :=
  match block with
  | none => .returned (-1) []
  | some block =>
      (tcpPsend flags block (sendLength len l) api answers k).map fun ok =>
        if ok then (sendLength len l).toNat else -1

/-- `psend` of a UDP socket: the count of the command is not asked for, and `p` stays 0. -/
def udpPsend (len : UInt16) (api : SendApi) (r : SendAnswer) : Bool :=
  (api.hear len r).success && decide ((0 : UInt16) = len)

/-- The call returns when every count is positive; what was taken is at any time a prefix of the
data; a return that claims `n` bytes means the first `n`. -/
structure Progress {β : Type} (data : List UInt8) (claims : β → Option Nat)
    (answers : Nat → SendAnswer) (run : Nat → Sending β) : Prop where
  terminates : (∀ k, ∃ n, (answers k).ready = some n ∧ 0 < n) → ∃ k b acc, run k = .returned b acc
  once : ∀ k, (run k).accepted <+: data
  means : ∀ k b acc n, run k = .returned b acc → claims b = some n →
    n ≤ data.length ∧ acc = data.take n

/-- The three calls. Whether there is a block for `send` is part of the call. -/
inductive SendCall
  | tcpPsend (flags : UInt8) (len : UInt16)
  | tcpSend (flags : UInt8) (len : Nat) (block : Bool)
  | udpPsend (len : UInt16)

namespace SendCall

/-- What the call promises when the module answers its first command with `first`: for all bytes
of the caller, all that its buffers and its stack held before, all further answers, and however
early or late each answer comes. -/
def Exact (api : SendApi) (first : Option UInt16) : SendCall → Prop
  | .tcpPsend flags len => ∀ (buf : Memory) (answers : Nat → SendAnswer), (answers 0).ready = first →
      Progress (buf.window 0 len.toNat) (fun ok => if ok then some len.toNat else none) answers
        (Snic.tcpPsend flags buf len api answers)
  | .tcpSend flags len block => ∀ (data : List UInt8) (mem : Memory) (l : UInt16)
      (answers : Nat → SendAnswer), data.length = len → (answers 0).ready = first →
      Progress data (fun n : Int => if 0 ≤ n then some n.toNat else none) answers
        (Snic.tcpSend flags (if block then some mem else none) l len api answers)
  | .udpPsend len => ∀ inTime : Bool, Snic.udpPsend len api ⟨first, inTime⟩ = true ↔
      ∃ n, first = some n ∧ len ≤ n

/-- An earlier success is left behind the signal. -/
def Stale (api : SendApi) : Prop := api.signal = true ∧ api.success = true

/-- What makes the promise hold: one command does it all, or fails and is seen to fail. -/
def OneStep (api : SendApi) (first : Option UInt16) : SendCall → Prop
  | .tcpPsend flags len => len = 0 ∨ enabled flags = true ∧
      ((∃ n, first = some n ∧ len ≤ n) ∧ (Stale api → len ≤ api.numberOfByteSent) ∨
        first = none ∧ ¬Stale api)
  | .tcpSend flags len block => len = 0 ∨ block = false ∨
      enabled flags = true ∧ first = none ∧ ¬Stale api
  | .udpPsend len =>
      if len = 0 then api.signal = true → (api.success = true ↔ first ≠ none)
      else ¬∃ n, first = some n ∧ len ≤ n

end SendCall

theorem Sending.accepted_map {β γ : Type} (f : β → γ) (s : Sending β) :
    (s.map f).accepted = s.accepted := by
  cases s <;> rfl

/-- From round `m` on the call has returned, and up to it the module had taken a part. -/
structure Ends {β : Type} (run : Nat → Sending β) (m : Nat) (b : β) (acc : List UInt8) : Prop where
  behind : ∀ k, m ≤ k → run k = .returned b acc
  before : ∀ k, k < m → (run k).accepted <+: acc ∧ ∀ b' acc', run k ≠ .returned b' acc'

theorem Ends.map {β γ : Type} {run : Nat → Sending β} {m : Nat} {b : β} {acc : List UInt8}
    (h : Ends run m b acc) (f : β → γ) : Ends (fun k => (run k).map f) m (f b) acc := by
  refine ⟨fun k hk => by rw [h.behind k hk]; rfl, fun k hk => ?_⟩
  obtain ⟨hacc, hne⟩ := h.before k hk
  cases hrun : run k with
  | sending api p acc' =>
    rw [hrun] at hacc
    exact ⟨hacc, fun _ _ => nofun⟩
  | returned b' acc' => exact absurd hrun (hne b' acc')

theorem Ends.progress {β : Type} {run : Nat → Sending β} {m : Nat} {b : β}
    {acc data : List UInt8} {claims : β → Option Nat} {answers : Nat → SendAnswer}
    (h : Ends run m b acc) (hacc : acc <+: data)
    (hmeans : ∀ n, claims b = some n → n ≤ data.length ∧ acc = data.take n) :
    Progress data claims answers run := by
  refine ⟨fun _ => ⟨m, b, acc, h.behind m le_rfl⟩, fun k => ?_, fun k b' acc' n hrun hclaims => ?_⟩
  · rcases Nat.lt_or_ge k m with hk | hk
    · exact (h.before k hk).1.trans hacc
    · rw [h.behind k hk]
      exact hacc
  · rcases Nat.lt_or_ge k m with hk | hk
    · exact absurd hrun ((h.before k hk).2 b' acc')
    · rw [h.behind k hk] at hrun
      injection hrun with hb ha
      subst hb ha
      exact hmeans n hclaims

section

variable {flags : UInt8} {buf : Memory} {len : UInt16} {api : SendApi} {answers : Nat → SendAnswer}

theorem tcpPsend_returned {m : Nat} {ok : Bool} {acc : List UInt8}
    (h : tcpPsend flags buf len api answers m = .returned ok acc) :
    ∀ k, m ≤ k → tcpPsend flags buf len api answers k = .returned ok acc := by
  intro k hk
  induction k, hk using Nat.le_induction with
  | base => exact h
  | succ k _ ih => rw [tcpPsend, ih, psendRound]

theorem psendRound_sending {p : UInt16} (h : p < len) (r : SendAnswer) (acc : List UInt8) :
    psendRound buf len r (.sending api p acc) =
      if (api.hear len r).success then
        .sending (api.hear len r) (p + (api.hear len r).numberOfByteSent)
          (acc ++ buf.window 0 (r.taken len).toNat)
      else .returned false (acc ++ buf.window 0 (r.taken len).toNat) := by
  rw [psendRound, if_pos h]

theorem psendRound_done {p : UInt16} (h : ¬p < len) (r : SendAnswer) (acc : List UInt8) :
    psendRound buf len r (.sending api p acc) = .returned true acc := by
  rw [psendRound, if_neg h]

theorem hear_late (h : api.signal = true) (given : UInt16) (ready : Option UInt16) :
    api.hear given ⟨ready, false⟩ = api := by
  rw [SendApi.hear, if_pos ⟨h, rfl⟩]

theorem hear_inTime (api : SendApi) {given n : UInt16} (h : n < given) :
    api.hear given ⟨some n, true⟩ = ⟨true, true, n⟩ := by
  rw [SendApi.hear, if_neg (by simp)]
  show SendApi.mk true true (if given ≤ n then given else n) = _
  rw [if_neg (UInt16.not_le.mpr h)]

theorem tcpPsend_zero (h : enabled flags = true) :
    tcpPsend flags buf len api answers 0 = .sending api 0 [] := by
  rw [tcpPsend, if_pos h]

theorem tcpPsend_one (h : enabled flags = true) :
    tcpPsend flags buf len api answers 1 = psendRound buf len (answers 0) (.sending api 0 []) := by
  rw [tcpPsend, tcpPsend_zero h]

theorem ends_disabled (h : enabled flags = false) :
    Ends (tcpPsend flags buf len api answers) 0 true [] := by
  refine ⟨tcpPsend_returned ?_, fun k hk => absurd hk (Nat.not_lt_zero k)⟩
  rw [tcpPsend, if_neg (by simp [h])]

theorem ends_empty (h : enabled flags = true) :
    Ends (tcpPsend flags buf 0 api answers) 1 true [] := by
  refine ⟨tcpPsend_returned ?_, fun k hk => ?_⟩
  · rw [tcpPsend, tcpPsend_zero h, psendRound_done (by decide)]
  · obtain rfl : k = 0 := by omega
    rw [tcpPsend_zero h]
    exact ⟨List.prefix_rfl, fun _ _ => nofun⟩

open SendCall (Stale)

theorem hear_fails {r : SendAnswer} (hr : r.ready = none) (hstale : ¬Stale api) (given : UInt16) :
    (api.hear given r).success = false := by
  rw [SendApi.hear]
  split
  · next hlate => exact Bool.eq_false_iff.mpr fun hs => hstale ⟨hlate.1, hs⟩
  · rw [hr]

theorem taken_whole {r : SendAnswer} {n : UInt16} (hr : r.ready = some n) (hle : len ≤ n) :
    r.taken len = len := by
  rw [SendAnswer.taken, hr, Option.getD_some, if_pos hle]

theorem taken_none {r : SendAnswer} (hr : r.ready = none) (given : UInt16) : r.taken given = 0 := by
  rw [SendAnswer.taken, hr, Option.getD_none]
  split
  · next hle => exact UInt16.le_zero_iff.mp hle
  · rfl

theorem hear_whole {r : SendAnswer} {n : UInt16} (hr : r.ready = some n) (hle : len ≤ n)
    (hstale : Stale api → len ≤ api.numberOfByteSent) (hs : (api.hear len r).success = true) :
    len ≤ (api.hear len r).numberOfByteSent := by
  rw [SendApi.hear] at hs ⊢
  split at hs
  · next hlate =>
    rw [if_pos hlate]
    exact hstale ⟨hlate.1, hs⟩
  · next hown =>
    rw [if_neg hown, hr]
    show len ≤ r.taken len
    rw [taken_whole hr hle]
    exact UInt16.le_refl len

theorem before_one (h : enabled flags = true) (acc : List UInt8) :
    (tcpPsend flags buf len api answers 0).accepted <+: acc ∧
      ∀ b' acc', tcpPsend flags buf len api answers 0 ≠ .returned b' acc' := by
  rw [tcpPsend_zero h]
  exact ⟨List.nil_prefix, fun _ _ => nofun⟩

/-- A command that fails, and is seen to fail, ends the call. -/
theorem ends_failed (h : enabled flags = true) (hlen : len ≠ 0) (hr : (answers 0).ready = none)
    (hstale : ¬Stale api) : Ends (tcpPsend flags buf len api answers) 1 false [] := by
  refine ⟨tcpPsend_returned ?_, fun k hk => ?_⟩
  · rw [tcpPsend_one h, psendRound_sending (UInt16.pos_iff_ne_zero.mpr hlen),
      if_neg (by rw [hear_fails hr hstale]; exact Bool.false_ne_true), taken_none hr]
    rfl
  · obtain rfl : k = 0 := by omega
    exact before_one h _

/-- A command whose bytes are all taken ends the call, with whatever is heard of it. -/
theorem ends_whole {n : UInt16} (h : enabled flags = true) (hlen : len ≠ 0)
    (hr : (answers 0).ready = some n) (hle : len ≤ n)
    (hstale : Stale api → len ≤ api.numberOfByteSent) :
    ∃ m ok, Ends (tcpPsend flags buf len api answers) m ok (buf.window 0 len.toNat) := by
  have hone : tcpPsend flags buf len api answers 1 =
      if (api.hear len (answers 0)).success then
        .sending (api.hear len (answers 0)) (0 + (api.hear len (answers 0)).numberOfByteSent)
          (buf.window 0 len.toNat)
      else .returned false (buf.window 0 len.toNat) := by
    rw [tcpPsend_one h, psendRound_sending (UInt16.pos_iff_ne_zero.mpr hlen), taken_whole hr hle,
      List.nil_append]
  by_cases hs : (api.hear len (answers 0)).success = true
  · rw [if_pos hs] at hone
    refine ⟨2, true, tcpPsend_returned ?_, fun k hk => ?_⟩
    · rw [tcpPsend, hone, UInt16.zero_add,
        psendRound_done (UInt16.not_lt.mpr (hear_whole hr hle hstale hs))]
    · obtain rfl | rfl : k = 0 ∨ k = 1 := by omega
      · exact before_one h _
      · rw [hone]
        exact ⟨List.prefix_rfl, fun _ _ => nofun⟩
  · rw [if_neg hs] at hone
    refine ⟨1, false, tcpPsend_returned hone, fun k hk => ?_⟩
    obtain rfl : k = 0 := by omega
    exact before_one h _

/-- Data whose first byte stands nowhere else. -/
def marked : Memory := fun i => if i = 0 then 0 else 1

/-- The front of the data cannot come twice. -/
theorem not_prefix_twice {n a b : Nat} (ha : 0 < a) (hb : 0 < b) :
    ¬(marked.window 0 a ++ marked.window 0 b) <+: marked.window 0 n := by
  intro h
  have hle := h.length_le
  simp only [List.length_append, length_window] at hle
  have hin : a < (marked.window 0 a ++ marked.window 0 b).length := by
    rw [List.length_append, length_window, length_window]
    omega
  have hget := h.getElem hin
  rw [List.getElem_append_right (by rw [length_window])] at hget
  simp [Memory.window, marked, Nat.ne_of_gt ha] at hget

/-- After the first command one byte is taken of each, and its answer is late. -/
def thenOne (first : SendAnswer) : Nat → SendAnswer
  | 0 => first
  | _ + 1 => ⟨some 1, false⟩

theorem psendRound_late {p : UInt16} (hsignal : api.signal = true) (hs : api.success = true)
    (hp : p < len) (acc : List UInt8) :
    psendRound buf len ⟨some 1, false⟩ (.sending api p acc) =
      .sending api (p + api.numberOfByteSent) (acc ++ buf.window 0 1) := by
  have htaken : (SendAnswer.mk (some 1) false).taken len = 1 := by
    rw [SendAnswer.taken, Option.getD_some]
    split
    · next hle =>
      rw [UInt16.le_iff_toNat_le] at hle
      rw [UInt16.lt_iff_toNat_lt] at hp
      have hone : (1 : UInt16).toNat = 1 := rfl
      exact UInt16.toNat_inj.mp (by omega)
    · rfl
  rw [psendRound_sending hp, hear_late hsignal, if_pos hs, htaken]
  rfl

variable {first : Option UInt16}

/-- Behind a part and with room for more, the next command sends the front again. -/
theorem not_exact_twice {k : Nat} {p : UInt16} {n : Nat} {r : SendAnswer}
    (h : SendCall.Exact api first (.tcpPsend flags len)) (hr : r.ready = first) {api' : SendApi}
    (hrun : tcpPsend flags marked len api (thenOne r) (k + 1) = .sending api' p (marked.window 0 n))
    (hsignal : api'.signal = true) (hs : api'.success = true) (hp : p < len) : n = 0 := by
  by_contra hn
  have honce := (h marked (thenOne r) hr).once (k + 2)
  rw [tcpPsend, hrun, thenOne, psendRound_late hsignal hs hp] at honce
  exact not_prefix_twice (Nat.pos_of_ne_zero hn) Nat.one_pos honce

theorem oneStep_tcpPsend (h : SendCall.Exact api first (.tcpPsend flags len)) :
    SendCall.OneStep api first (.tcpPsend flags len) := by
  by_cases hlen : len = 0
  · exact Or.inl hlen
  have hpos : 0 < len := UInt16.pos_iff_ne_zero.mpr hlen
  have hlen' : len.toNat ≠ 0 := fun h0 => hlen (UInt16.toNat_inj.mp h0)
  -- a return that claims the whole length has nothing of it
  have hnothing : ∀ r k, r.ready = first →
      tcpPsend flags marked len api (thenOne r) k ≠ .returned true [] := by
    intro r k hr hrun
    have hmeans := ((h marked (thenOne r) hr).means k true [] len.toNat hrun rfl).2
    have hlength := congrArg List.length hmeans
    rw [List.length_take, length_window, min_self] at hlength
    exact hlen' hlength.symm
  have henabled : enabled flags = true := by
    by_contra hdis
    refine hnothing ⟨first, true⟩ 0 rfl ?_
    rw [tcpPsend, if_neg hdis]
  refine Or.inr ⟨henabled, ?_⟩
  cases first with
  | some n =>
    have hle : len ≤ n := by
      by_contra hlt
      have hlt : n < len := UInt16.not_le.mp hlt
      have htaken : (SendAnswer.mk (some n) true).taken len = n := by
        rw [SendAnswer.taken, Option.getD_some, if_neg (UInt16.not_le.mpr hlt)]
      have hone : tcpPsend flags marked len api (thenOne ⟨some n, true⟩) 1 =
          .sending ⟨true, true, n⟩ n (marked.window 0 n.toNat) := by
        rw [tcpPsend_one henabled, psendRound_sending hpos, thenOne, hear_inTime api hlt, htaken,
          if_pos rfl, UInt16.zero_add, List.nil_append]
      have hzero : n.toNat = 0 := not_exact_twice h rfl hone rfl rfl hlt
      obtain rfl : n = 0 := UInt16.toNat_inj.mp hzero
      have htwo : tcpPsend flags marked len api (thenOne ⟨some 0, true⟩) 2 =
          .sending ⟨true, true, 0⟩ 0 (marked.window 0 1) := by
        rw [tcpPsend, hone, thenOne, psendRound_late rfl rfl hlt]
        rfl
      exact absurd (not_exact_twice h rfl htwo rfl rfl hlt) Nat.one_ne_zero
    refine Or.inl ⟨⟨n, rfl, hle⟩, fun hstale => ?_⟩
    by_contra hlt
    have hlt : api.numberOfByteSent < len := UInt16.not_le.mp hlt
    have hone : tcpPsend flags marked len api (thenOne ⟨some n, false⟩) 1 =
        .sending api api.numberOfByteSent (marked.window 0 len.toNat) := by
      rw [tcpPsend_one henabled, psendRound_sending hpos, thenOne, hear_late hstale.1,
        taken_whole rfl hle, if_pos hstale.2, UInt16.zero_add, List.nil_append]
    exact hlen' (not_exact_twice h rfl hone hstale.1 hstale.2 hlt)
  | none =>
    refine Or.inr ⟨rfl, fun hstale => ?_⟩
    have hone : tcpPsend flags marked len api (thenOne ⟨none, false⟩) 1 =
        .sending api api.numberOfByteSent [] := by
      rw [tcpPsend_one henabled, psendRound_sending hpos, thenOne, hear_late hstale.1, taken_none rfl,
        if_pos hstale.2, UInt16.zero_add]
      rfl
    by_cases hlt : api.numberOfByteSent < len
    · have htwo : tcpPsend flags marked len api (thenOne ⟨none, false⟩) 2 =
          .sending api (api.numberOfByteSent + api.numberOfByteSent) (marked.window 0 1) := by
        rw [tcpPsend, hone, thenOne, psendRound_late hstale.1 hstale.2 hlt]
        rfl
      by_cases hlt' : api.numberOfByteSent + api.numberOfByteSent < len
      · exact absurd (not_exact_twice h rfl htwo hstale.1 hstale.2 hlt') Nat.one_ne_zero
      · -- the stale count has gone up to the length, so the length is not 1
        have hthree : tcpPsend flags marked len api (thenOne ⟨none, false⟩) 3 =
            .returned true (marked.window 0 1) := by
          rw [tcpPsend, htwo, psendRound_done hlt']
        have hmeans := ((h marked (thenOne ⟨none, false⟩) rfl).means 3 true _ len.toNat hthree rfl).2
        have hlength := congrArg List.length hmeans
        rw [List.length_take, length_window, length_window, min_self] at hlength
        have hcount : api.numberOfByteSent = 0 := by
          rw [UInt16.lt_iff_toNat_lt, ← hlength] at hlt
          exact UInt16.toNat_inj.mp (by simpa using hlt)
        exact hlt' (hcount ▸ hpos)
    · refine hnothing ⟨none, false⟩ 2 rfl ?_
      rw [tcpPsend, hone, psendRound_done hlt]

/-- What `send` returns for the answer of `psend`. -/
def sendValue (l : UInt16) (ok : Bool) : Int := if ok then l.toNat else -1

theorem tcpSend_some (block : Memory) (l : UInt16) (len : Nat) :
    tcpSend flags (some block) l len api answers =
      fun k => (tcpPsend flags block (sendLength len l) api answers k).map (sendValue (sendLength len l)) :=
  rfl

theorem oneStep_tcpSend {len : Nat} {block : Bool}
    (h : SendCall.Exact api first (.tcpSend flags len block)) :
    SendCall.OneStep api first (.tcpSend flags len block) := by
  by_cases hlen : len = 0
  · exact Or.inl hlen
  cases block with
  | false => exact Or.inr (Or.inl rfl)
  | true =>
  -- the stack held a 1, the block does not hold the data
  have hl : sendLength len 1 = 1 := if_neg (by show ¬len < 1; omega)
  have hprogress : ∀ r, r.ready = first → Progress (List.replicate len 0)
      (fun n : Int => if 0 ≤ n then some n.toNat else none) (thenOne r)
        (fun k => (tcpPsend flags (fun _ => 1) 1 api (thenOne r) k).map (sendValue 1)) := by
    intro r hr
    have hrun := h (List.replicate len 0) (fun _ => 1) 1 (thenOne r) List.length_replicate hr
    rw [if_pos rfl, tcpSend_some, hl] at hrun
    exact hrun
  have hforeign : ∀ r k, r.ready = first →
      (tcpPsend flags (fun _ => 1) 1 api (thenOne r) k).accepted ≠ [1] := by
    intro r k hr hacc
    have honce := (hprogress r hr).once k
    rw [Sending.accepted_map, hacc] at honce
    exact absurd (List.eq_of_mem_replicate (honce.subset List.mem_cons_self)) (by decide)
  have hnothing : ∀ r k, r.ready = first →
      tcpPsend flags (fun _ => 1) 1 api (thenOne r) k ≠ .returned true [] := by
    intro r k hr hrun
    have hmeans := ((hprogress r hr).means k 1 [] 1 (by rw [hrun]; rfl) rfl).2
    have hlength := congrArg List.length hmeans
    rw [List.length_take, List.length_replicate, List.length_nil] at hlength
    omega
  have henabled : enabled flags = true := by
    by_contra hdis
    refine hnothing ⟨first, true⟩ 0 rfl ?_
    rw [tcpPsend, if_neg hdis]
  refine Or.inr (Or.inr ⟨henabled, ?_⟩)
  have hpos : (0 : UInt16) < 1 := by decide
  have hwindow : Memory.window (fun _ => 1) 0 1 = [1] := rfl
  cases first with
  | some n =>
    exfalso
    by_cases hle : 1 ≤ n
    · refine hforeign ⟨some n, true⟩ 1 rfl ?_
      rw [tcpPsend_one henabled, psendRound_sending hpos, thenOne, taken_whole rfl hle]
      split <;> rfl
    · obtain rfl : n = 0 := UInt16.lt_one_iff.mp (UInt16.not_le.mp hle)
      have hone : tcpPsend flags (fun _ => 1) 1 api (thenOne ⟨some 0, true⟩) 1 =
          .sending ⟨true, true, 0⟩ 0 [] := by
        rw [tcpPsend_one henabled, psendRound_sending hpos, thenOne, hear_inTime api hpos, if_pos rfl]
        rfl
      refine hforeign ⟨some 0, true⟩ 2 rfl ?_
      rw [tcpPsend, hone, thenOne, psendRound_late rfl rfl hpos, hwindow]
      rfl
  | none =>
    refine ⟨rfl, fun hstale => ?_⟩
    have hone : tcpPsend flags (fun _ => 1) 1 api (thenOne ⟨none, false⟩) 1 =
        .sending api api.numberOfByteSent [] := by
      rw [tcpPsend_one henabled, psendRound_sending hpos, thenOne, hear_late hstale.1, taken_none rfl,
        if_pos hstale.2, UInt16.zero_add]
      rfl
    by_cases hlt : api.numberOfByteSent < 1
    · refine hforeign ⟨none, false⟩ 2 rfl ?_
      rw [tcpPsend, hone, thenOne, psendRound_late hstale.1 hstale.2 hlt, hwindow]
      rfl
    · refine hnothing ⟨none, false⟩ 2 rfl ?_
      rw [tcpPsend, hone, psendRound_done hlt]

theorem exact_tcpPsend (h : SendCall.OneStep api first (.tcpPsend flags len)) :
    SendCall.Exact api first (.tcpPsend flags len) := by
  intro buf answers hr
  have hempty : ∀ m, Ends (tcpPsend flags buf 0 api answers) m true [] →
      Progress (buf.window 0 (0 : UInt16).toNat)
        (fun ok => if ok then some (0 : UInt16).toNat else none) answers
        (tcpPsend flags buf 0 api answers) := by
    intro m hends
    refine hends.progress List.nil_prefix fun n hn => ?_
    obtain rfl := Option.some.inj hn
    exact ⟨Nat.zero_le _, rfl⟩
  obtain rfl | ⟨henabled, hfirst⟩ := h
  · by_cases henabled : enabled flags = true
    · exact hempty 1 (ends_empty henabled)
    · exact hempty 0 (ends_disabled (Bool.eq_false_iff.mpr henabled))
  by_cases hlen : len = 0
  · subst hlen
    exact hempty 1 (ends_empty henabled)
  obtain ⟨⟨n, rfl, hle⟩, hstale⟩ | ⟨rfl, hstale⟩ := hfirst
  · obtain ⟨m, ok, hends⟩ := @ends_whole flags buf len api answers n henabled hlen hr hle hstale
    refine hends.progress List.prefix_rfl fun n' hn => ?_
    cases ok with
    | false => cases hn
    | true =>
      obtain rfl := Option.some.inj hn
      rw [length_window]
      exact ⟨le_rfl, (List.take_of_length_le (by rw [length_window])).symm⟩
  · exact (ends_failed henabled hlen hr hstale).progress List.nil_prefix fun n hn => nomatch hn

theorem exact_tcpSend {len : Nat} {block : Bool}
    (h : SendCall.OneStep api first (.tcpSend flags len block)) :
    SendCall.Exact api first (.tcpSend flags len block) := by
  intro data mem l answers hdata hr
  cases block with
  | false =>
    exact ⟨fun _ => ⟨0, -1, [], rfl⟩, fun _ => List.nil_prefix,
      fun k b acc n hrun hclaims => by cases hrun; cases hclaims⟩
  | true =>
  have hempty : ∀ m, Ends (tcpPsend flags mem (sendLength len l) api answers) m true [] →
      sendLength len l = 0 → Progress data (fun n : Int => if 0 ≤ n then some n.toNat else none)
        answers (tcpSend flags (some mem) l len api answers) := by
    intro m hends hzero
    rw [tcpSend_some]
    refine (hends.map _).progress List.nil_prefix fun n hn => ?_
    rw [hzero] at hn
    obtain rfl := Option.some.inj hn
    exact ⟨Nat.zero_le _, rfl⟩
  rw [if_pos rfl]
  by_cases hzero : sendLength len l = 0
  · by_cases henabled : enabled flags = true
    · exact hempty 1 (hzero ▸ ends_empty henabled) hzero
    · exact hempty 0 (ends_disabled (Bool.eq_false_iff.mpr henabled)) hzero
  · obtain rfl | hblock | ⟨henabled, rfl, hstale⟩ := h
    · refine absurd ?_ hzero
      unfold sendLength
      split
      · rfl
      · next hl => exact UInt16.toNat_inj.mp (by simpa using hl)
    · cases hblock
    · rw [tcpSend_some]
      refine ((ends_failed henabled hzero hr hstale).map _).progress List.nil_prefix fun n hn => ?_
      cases hn

theorem exact_udpPsend :
    SendCall.Exact api first (.udpPsend len) ↔ SendCall.OneStep api first (.udpPsend len) := by
  show (∀ inTime : Bool, udpPsend len api ⟨first, inTime⟩ = true ↔ ∃ n, first = some n ∧ len ≤ n) ↔
    if len = 0 then api.signal = true → (api.success = true ↔ first ≠ none)
      else ¬∃ n, first = some n ∧ len ≤ n
  by_cases hlen : len = 0
  · subst hlen
    rw [if_pos rfl]
    have hwhole : (∃ n, first = some n ∧ 0 ≤ n) ↔ first ≠ none := by
      cases first with
      | none => simp
      | some n => simp
    have hown : ∀ inTime, ¬(api.signal = true ∧ (!inTime) = true) →
        ((api.hear 0 ⟨first, inTime⟩).success = true ↔ first ≠ none) := by
      intro inTime hno
      rw [SendApi.hear, if_neg hno]
      cases first <;> simp
    have hresult : ∀ inTime, udpPsend 0 api ⟨first, inTime⟩ = (api.hear 0 ⟨first, inTime⟩).success := by
      intro inTime
      simp [udpPsend]
    simp only [hwhole, hresult]
    constructor
    · intro h hsignal
      have hlate := h false
      rwa [hear_late hsignal] at hlate
    · intro h inTime
      by_cases hlate : api.signal = true ∧ (!inTime) = true
      · rw [SendApi.hear, if_pos hlate]
        exact h hlate.1
      · exact hown inTime hlate
  · rw [if_neg hlen]
    have hfalse : ∀ inTime, udpPsend len api ⟨first, inTime⟩ = false := by
      intro inTime
      rw [udpPsend, decide_eq_false (fun h0 => hlen h0.symm), Bool.and_false]
    simp only [hfalse, Bool.false_eq_true, false_iff]
    exact ⟨fun h => h true, fun h _ => h⟩

/-- The loop makes exact progress just when there is no second round to make it in: neither the
buffer nor the length moves on. -/
theorem snic_send_iff (api : SendApi) (first : Option UInt16) (c : SendCall) :
    c.Exact api first ↔ c.OneStep api first := by
  cases c with
  | tcpPsend flags len => exact ⟨oneStep_tcpPsend, exact_tcpPsend⟩
  | tcpSend flags len block => exact ⟨oneStep_tcpSend, exact_tcpSend⟩
  | udpPsend len => exact exact_udpPsend

/-- Two bytes, of which the module takes one at a time. -/
theorem not_snic_send : ¬SendCall.Exact ⟨false, false, 0⟩ (some 1) (.tcpPsend 0x03 2) := by
  intro h
  rcases oneStep_tcpPsend h with h0 | ⟨-, ⟨⟨n, hn, hle⟩, -⟩ | ⟨hnone, -⟩⟩
  · exact absurd h0 (by decide)
  · obtain rfl := Option.some.inj hn
    exact absurd hle (by decide)
  · cases hnone

end

end MiMic.Snic
