import MiMic.Lib.System
import MiMic.NetIf.UdpSocket

/-!
# The receive queue of a UDP socket

What the queue should hold is a list of datagrams. An arriving datagram that the socket
takes goes to its end when there is room for the record, and is forgotten otherwise; the
reader removes the first one.
-/
namespace MiMic.NetIf

open Verif

structure Datagram where
  info : IPv4RxInfo
  payload : List UInt8

def Datagram.record (d : Datagram) : List UInt8 := d.info.bytes ++ d.payload

/-- The packet is as long as its IP and UDP headers. -/
def CoversHeaders (iph : Memory) : Prop := 4 * ihl iph + 8 ≤ totalLength iph

instance (iph : Memory) : Decidable (CoversHeaders iph) := inferInstanceAs (Decidable (_ ≤ _))

/-- What a packet carries behind its headers. -/
def datagramOf (iph : Memory) : Option Datagram :=
  if CoversHeaders iph then
    let n := totalLength iph - (4 * ihl iph + 8)
    some
      { info :=
          { peerIp := srcIpAddr iph
            ip := destIpAddr iph
            peerPort := ntohs ((ipPayload iph).u16 0)
            port := ntohs ((ipPayload iph).u16 2)
            size := UInt16.ofNat n }
        payload := iph.window (4 * ihl iph + 8) n }
  else none

/-- The socket wants the packet, and its handler has nothing against it. -/
def UdpRxSocket.takes (s : UdpRxSocket) (iph : Memory) (handlerTakes : Bool) : Bool :=
  !s.refuses iph && !(s.hasRxHandler && !handlerTakes)

def arrive (s : UdpRxSocket) (queue : List Datagram) (iph : Memory) (handlerTakes : Bool) :
    List Datagram :=
  match datagramOf iph with
  | none => queue
  | some d =>
      if s.takes iph handlerTakes ∧
          (queue.flatMap Datagram.record).length + d.record.length ≤ s.rxbuf.size.toNat then
        queue ++ [d]
      else queue

/-- The buffer is the concatenation of the records of the queue. -/
structure Whole (s : UdpRxSocket) (queue : List Datagram) : Prop where
  buf_eq : s.rxbuf.buf = queue.flatMap Datagram.record
  sized : ∀ d ∈ queue, d.info.size.toNat = d.payload.length

inductive UdpAct
  | rx (iph : Memory) (handlerTakes : Bool)
  | precv (elapsed waitMsec : Nat)
  | pseek
  | joinMulticast (addr : IPv4Addr)
  | setBroadcast
  | setOnRxHandler (handler : Bool)

def udpStep (s : UdpRxSocket) : UdpAct → Option UdpRxSocket
  | .rx iph handlerTakes => some (s.parseRx iph handlerTakes).sock
  | .precv _ _ => some s
  | .pseek => some s.pseek
  | .joinMulticast addr => some (s.joinMulticast addr)
  | .setBroadcast => some s.setBroadcast
  | .setOnRxHandler handler => some (s.setOnRxHandler handler)

/-- A socket starts with an empty buffer of any size. -/
def udpSystem : System UdpRxSocket UdpAct where
  init s := s.rxbuf.buf = []
  step := udpStep

def noteQueue (queue : List Datagram) (s : UdpRxSocket) (a : UdpAct) (_ : UdpRxSocket) :
    List Datagram :=
  match a with
  | .rx iph handlerTakes => arrive s queue iph handlerTakes
  | .pseek => queue.tail
  | _ => queue

def udpQueue : System (UdpRxSocket × List Datagram) UdpAct := udpSystem.observe [] noteQueue

/-- Zero and a further turn say that nothing has come; anything else is the first datagram. -/
def TurnRight (queue : List Datagram) : PrecvTurn → Prop
  | .again => queue = []
  | .returns ret out =>
      if ret = 0 then queue = []
      else ∃ d rest, queue = d :: rest ∧ out = some (d.info, d.payload) ∧
        ret.toNat = d.payload.length

/-- The step does to the buffer what it should do to the queue, and `precv` reports it. -/
def StepRight (p : UdpRxSocket × List Datagram) : UdpAct → Prop
  | .precv elapsed waitMsec => TurnRight p.2 (p.1.precvTurn elapsed waitMsec)
  | a => ∀ s', udpStep p.1 a = some s' → Whole s' (noteQueue p.2 p.1 a s')

/-- A packet shorter than its headers is turned away, and `precv` does not look at its clock
or find an empty payload while something is queued. -/
def InStep (p : UdpRxSocket × List Datagram) : UdpAct → Prop
  | .rx iph handlerTakes =>
      CoversHeaders iph ∨ ¬ (p.1.takes iph handlerTakes = true ∧
        p.1.hasSpace (udpRxInfo iph).size = true)
  | .precv elapsed waitMsec => ∀ d, p.2.head? = some d → elapsed < waitMsec ∧ d.payload ≠ []
  | _ => True

theorem length_record (d : Datagram) : d.record.length = sizeOfRxInfo + d.payload.length := by
  rw [Datagram.record, List.length_append, IPv4RxInfo.length_bytes]

theorem hasSpace_iff (s : UdpRxSocket) (size : UInt16) :
    s.hasSpace size = true ↔
      s.rxbuf.buf.length + (sizeOfRxInfo + size.toNat) ≤ s.rxbuf.size.toNat := by
  have hfits := s.rxbuf.fits
  have hpos : 0 < sizeOfRxInfo := by decide
  simp only [UdpRxSocket.hasSpace, FifoBuffer.toNat_getSpace, Bool.not_eq_true',
    decide_eq_false_iff_not]
  omega

/-- The two subtractions of the source do not wrap. -/
theorem toNat_size {iph : Memory} (h : CoversHeaders iph) :
    (udpRxInfo iph).size.toNat = totalLength iph - (4 * ihl iph + 8) := by
  have hip := ipHeaderLength_eq iph
  have hpk := ipPacketLength_eq iph
  have h8 : udpHeaderLength.toNat = 8 := rfl
  unfold CoversHeaders at h
  have hexact := (toNat_sub_sub (ipPacketLength iph) (ipHeaderLength iph) udpHeaderLength).mpr
    (by omega)
  simp only [udpRxInfo]
  omega

theorem datagramOf_eq {iph : Memory} (h : CoversHeaders iph) :
    datagramOf iph = some ⟨udpRxInfo iph, udpData iph⟩ := by
  have hsize := toNat_size h
  have hoff : udpDataOffset iph = 4 * ihl iph + 8 := by
    rw [udpDataOffset, ipHeaderLength_eq]
    rfl
  have hval : UInt16.ofNat (totalLength iph - (4 * ihl iph + 8)) = (udpRxInfo iph).size := by
    rw [← hsize]
    exact UInt16.ofNat_toNat
  rw [datagramOf, if_pos h, udpData, hsize, hoff]
  simp only [hval]
  rfl

/-- A record behind the buffer, as `parseRx` pushes it. -/
theorem parseRx_buf (s : UdpRxSocket) (iph : Memory) (handlerTakes : Bool) :
    (s.parseRx iph handlerTakes).sock.rxbuf.size = s.rxbuf.size ∧
      (s.parseRx iph handlerTakes).sock.rxbuf.buf =
        if s.takes iph handlerTakes = true ∧ s.hasSpace (udpRxInfo iph).size = true then
          s.rxbuf.buf ++ Datagram.record ⟨udpRxInfo iph, udpData iph⟩
        else s.rxbuf.buf := by
  unfold UdpRxSocket.parseRx UdpRxSocket.takes
  cases s.refuses iph with
  | true => simp
  | false =>
    cases hh : s.hasRxHandler && !handlerTakes with
    | true => simp
    | false =>
      by_cases hsp : s.hasSpace (udpRxInfo iph).size = true
      · simp only [hsp]
        exact ⟨rfl, List.append_assoc _ _ _⟩
      · simp [hsp]

theorem Whole.arrives {s : UdpRxSocket} {queue : List Datagram} {iph : Memory}
    {handlerTakes : Bool} (h : Whole s queue) (hc : CoversHeaders iph) :
    Whole (s.parseRx iph handlerTakes).sock (arrive s queue iph handlerTakes) := by
  obtain ⟨-, hbuf⟩ := parseRx_buf s iph handlerTakes
  have hroom : s.hasSpace (udpRxInfo iph).size = true ↔
      (queue.flatMap Datagram.record).length +
        (Datagram.record ⟨udpRxInfo iph, udpData iph⟩).length ≤ s.rxbuf.size.toNat := by
    rw [hasSpace_iff, h.buf_eq, length_record, length_udpData]
  simp only [arrive, datagramOf_eq hc, ← hroom]
  by_cases hq : s.takes iph handlerTakes = true ∧ s.hasSpace (udpRxInfo iph).size = true
  · rw [if_pos hq] at hbuf ⊢
    constructor
    · rw [hbuf, h.buf_eq, List.flatMap_append, List.flatMap_singleton]
    · intro d hd
      rcases List.mem_append.mp hd with hmem | hmem
      · exact h.sized d hmem
      · obtain rfl := List.mem_singleton.mp hmem
        exact (length_udpData iph).symm
  · rw [if_neg hq] at hbuf ⊢
    exact ⟨hbuf.trans h.buf_eq, h.sized⟩

/-- A packet without a payload of its own must leave the buffer as it was. -/
theorem whole_short_iff {s : UdpRxSocket} {queue : List Datagram} {iph : Memory}
    {handlerTakes : Bool} (h : Whole s queue) (hc : ¬ CoversHeaders iph) :
    Whole (s.parseRx iph handlerTakes).sock (arrive s queue iph handlerTakes) ↔
      ¬ (s.takes iph handlerTakes = true ∧ s.hasSpace (udpRxInfo iph).size = true) := by
  obtain ⟨-, hbuf⟩ := parseRx_buf s iph handlerTakes
  simp only [arrive, datagramOf, if_neg hc]
  by_cases hq : s.takes iph handlerTakes = true ∧ s.hasSpace (udpRxInfo iph).size = true
  · refine iff_of_false (fun hw => ?_) (not_not.mpr hq)
    have hlen := congrArg List.length (hbuf.symm.trans (hw.buf_eq.trans h.buf_eq.symm))
    rw [if_pos hq, List.length_append, length_record] at hlen
    have hpos : 0 < sizeOfRxInfo := by decide
    omega
  · refine iff_of_true ⟨?_, h.sized⟩ hq
    rw [hbuf, if_neg hq]
    exact h.buf_eq

theorem Whole.nil_iff {s : UdpRxSocket} {queue : List Datagram} (h : Whole s queue) :
    queue = [] ↔ ¬ s.rxbuf.getLength > 0 := by
  have hlen : s.rxbuf.getLength > 0 ↔ 0 < s.rxbuf.buf.length := by
    rw [gt_iff_lt, UInt16.lt_iff_toNat_lt, FifoBuffer.toNat_getLength]
    rfl
  rw [hlen, h.buf_eq]
  cases queue with
  | nil => simp
  | cons d rest =>
    have hpos : 0 < sizeOfRxInfo := by decide
    simp only [List.flatMap_cons, List.length_append, length_record]
    exact iff_of_false (List.cons_ne_nil _ _) (by omega)

theorem Whole.getLength_pos {s : UdpRxSocket} {d : Datagram} {rest : List Datagram}
    (h : Whole s (d :: rest)) : s.rxbuf.getLength > 0 :=
  not_not.mp fun hno => List.cons_ne_nil d rest (h.nil_iff.mpr hno)

/-- The first record is read as it was written. -/
theorem Whole.front {s : UdpRxSocket} {d : Datagram} {rest : List Datagram}
    (h : Whole s (d :: rest)) :
    rxInfoAt s.rxMemory = d.info ∧
      s.rxMemory.window sizeOfRxInfo d.info.size.toNat = d.payload := by
  have hbuf : s.rxbuf.buf = d.info.bytes ++ d.payload ++ rest.flatMap Datagram.record := h.buf_eq
  obtain ⟨hinfo, hdata⟩ := front_of_buf hbuf
  refine ⟨hinfo, ?_⟩
  rw [h.sized d List.mem_cons_self]
  exact hdata

theorem Whole.pseek {s : UdpRxSocket} {queue : List Datagram} (h : Whole s queue) :
    Whole s.pseek queue.tail := by
  unfold UdpRxSocket.pseek
  cases queue with
  | nil =>
    rw [if_neg (h.nil_iff.mp rfl)]
    exact h
  | cons d rest =>
    rw [if_pos h.getLength_pos, h.front.1]
    have hrec : (d.info.size + UInt16.ofNat sizeOfRxInfo).toNat = d.record.length := by
      have hlt := s.rxbuf.length_lt
      rw [h.buf_eq, List.flatMap_cons, List.length_append, length_record] at hlt
      have h14 : (UInt16.ofNat sizeOfRxInfo).toNat = sizeOfRxInfo := rfl
      have hsz := h.sized d List.mem_cons_self
      rw [length_record, UInt16.toNat_add, h14, hsz]
      omega
    constructor
    · show s.rxbuf.buf.drop _ = _
      rw [hrec, h.buf_eq, List.flatMap_cons, List.drop_left]
      rfl
    · exact fun d' hd' => h.sized d' (List.mem_cons_of_mem _ hd')

/-- A look while something is queued. -/
theorem Whole.precvTurn_eq {s : UdpRxSocket} {d : Datagram} {rest : List Datagram}
    {elapsed waitMsec : Nat} (h : Whole s (d :: rest)) (ht : elapsed < waitMsec) :
    s.precvTurn elapsed waitMsec = .returns d.info.size (some (d.info, d.payload)) := by
  obtain ⟨hinfo, hdata⟩ := h.front
  simp only [UdpRxSocket.precvTurn, if_pos ht, if_pos h.getLength_pos, hinfo, hdata]

theorem turnRight_iff {s : UdpRxSocket} {queue : List Datagram} {elapsed waitMsec : Nat}
    (h : Whole s queue) :
    TurnRight queue (s.precvTurn elapsed waitMsec) ↔
      ∀ d, queue.head? = some d → elapsed < waitMsec ∧ d.payload ≠ [] := by
  cases queue with
  | nil =>
    refine iff_of_true ?_ fun d hd => nomatch hd
    rw [UdpRxSocket.precvTurn, if_neg (h.nil_iff.mp rfl)]
    split <;> simp [TurnRight]
  | cons d rest =>
    have hcond : (∀ d', (d :: rest).head? = some d' → elapsed < waitMsec ∧ d'.payload ≠ []) ↔
        elapsed < waitMsec ∧ d.payload ≠ [] := by simp
    have hsz := h.sized d List.mem_cons_self
    have hzero : d.info.size = 0 ↔ d.payload = [] := by
      rw [← List.length_eq_zero_iff, ← hsz, ← UInt16.toNat_inj]
      rfl
    rw [hcond]
    by_cases ht : elapsed < waitMsec
    · rw [h.precvTurn_eq ht, TurnRight, and_iff_right ht]
      by_cases hp : d.payload = []
      · rw [if_pos (hzero.mpr hp)]
        exact iff_of_false (List.cons_ne_nil _ _) (not_not.mpr hp)
      · rw [if_neg (mt hzero.mp hp)]
        exact iff_of_true ⟨d, rest, rfl, rfl, hsz⟩ hp
    · rw [UdpRxSocket.precvTurn, if_neg ht]
      exact iff_of_false (List.cons_ne_nil _ _) fun hboth => ht hboth.1

theorem stepRight_iff {p : UdpRxSocket × List Datagram} (h : Whole p.1 p.2) (a : UdpAct) :
    StepRight p a ↔ InStep p a := by
  have hsame : ∀ s' : UdpRxSocket, s'.rxbuf = p.1.rxbuf → Whole s' p.2 := by
    intro s' hs
    exact ⟨by rw [hs]; exact h.buf_eq, h.sized⟩
  have hright : ∀ {t : UdpRxSocket} {queue : List Datagram}, Whole t queue →
      ∀ s', some t = some s' → Whole s' queue := by
    intro t queue ht s' hs
    obtain rfl := Option.some.inj hs
    exact ht
  cases a with
  | rx iph handlerTakes =>
    have harrive : StepRight p (.rx iph handlerTakes) ↔
        Whole (p.1.parseRx iph handlerTakes).sock (arrive p.1 p.2 iph handlerTakes) := by
      simp [StepRight, udpStep, noteQueue]
    rw [harrive, InStep]
    by_cases hc : CoversHeaders iph
    · exact iff_of_true (h.arrives hc) (Or.inl hc)
    · rw [whole_short_iff h hc, or_iff_right hc]
  | precv elapsed waitMsec => exact turnRight_iff h
  | pseek => exact iff_of_true (hright h.pseek) trivial
  | joinMulticast addr => exact iff_of_true (hright (hsame _ rfl)) trivial
  | setBroadcast => exact iff_of_true (hright (hsame _ rfl)) trivial
  | setOnRxHandler handler => exact iff_of_true (hright (hsame _ rfl)) trivial

theorem reaches_whole {p : UdpRxSocket × List Datagram} (h : udpQueue.Reaches InStep p) :
    Whole p.1 p.2 := by
  refine h.invariant (P := fun p => Whole p.1 p.2) ?_ ?_
  · rintro ⟨s, queue⟩ ⟨hs, rfl⟩
    exact ⟨hs, fun d hd => nomatch hd⟩
  · rintro ⟨s, queue⟩ a ⟨s', queue'⟩ hp hok hs
    obtain ⟨hstep, rfl⟩ := System.observe_step.mp hs
    have hright := (stepRight_iff hp a).mpr hok
    cases a with
    | precv elapsed waitMsec =>
      obtain rfl := Option.some.inj hstep
      exact hp
    | _ => exact hright s' hstep

/-- The receive queue: in every run whose steps are all in step the buffer is the queue, and
there a step is right exactly when it is in step. -/
theorem udp_receive_queue {p : UdpRxSocket × List Datagram} (h : udpQueue.Reaches InStep p) :
    Whole p.1 p.2 ∧ ∀ a, StepRight p a ↔ InStep p a :=
  ⟨reaches_whole h, stepRight_iff (reaches_whole h)⟩

/-- A datagram from 192.168.0.7 port 1000 to 192.168.0.2 port 53. -/
def packetWith (payload : List UInt8) : Memory :=
  listMemory ([69, 0, 0, UInt8.ofNat (28 + payload.length), 0, 1, 0, 0, 64, 17, 0, 0,
    192, 168, 0, 7, 192, 168, 0, 2, 3, 232, 0, 53, 0, UInt8.ofNat (8 + payload.length), 0, 0] ++
    payload)

/-- A socket of port 53 with 100 bytes of buffer. -/
def emptySocket : UdpRxSocket where
  conn := ⟨htons 53, ⟨0⟩, 0⟩
  rxbuf := ⟨100, [], Nat.zero_le _⟩
  hasRxHandler := false

theorem exists_received (payload : List UInt8) (hc : CoversHeaders (packetWith payload))
    {p : UdpRxSocket × List Datagram → Bool}
    (h : (udpQueue.step (emptySocket, []) (.rx (packetWith payload) true)).any p = true) :
    ∃ q, udpQueue.Reaches InStep q ∧ p q = true := by
  obtain ⟨q, hq, hp⟩ := (Option.any_eq_true _ _).mp h
  have hinit : udpQueue.init (emptySocket, []) := ⟨rfl, rfl⟩
  have hin : InStep (emptySocket, []) (.rx (packetWith payload) true) := Or.inl hc
  exact ⟨q, (System.Reaches.init hinit).step hin hq, hp⟩

/-- Three bytes are received, and `precv` shows them. -/
theorem udp_receive_queue_three : ∃ p : UdpRxSocket × List Datagram,
    p.2.map Datagram.payload = [[1, 2, 3]] ∧ Whole p.1 p.2 ∧ StepRight p (.precv 0 2000) := by
  obtain ⟨p, hp, hpay⟩ := exists_received [1, 2, 3]
    (p := fun p => p.2.map Datagram.payload == [[1, 2, 3]]) (by decide +kernel) (by decide +kernel)
  have hpay := beq_iff_eq.mp hpay
  obtain ⟨hw, hright⟩ := udp_receive_queue hp
  refine ⟨p, hpay, hw, (hright _).mpr fun d hd => ⟨by decide, ?_⟩⟩
  intro hnil
  obtain ⟨rest, hrest⟩ := List.head?_eq_some_iff.mp hd
  rw [hrest, List.map_cons, hnil] at hpay
  cases hpay

/-- A datagram without payload is queued: `precv` returns zero. And a wait of zero does not
look at the queue at all. -/
theorem empty_datagram_unseen :
    (¬ ∀ p, udpQueue.Reaches System.anyStep p → StepRight p (.precv 0 2000)) ∧
      ¬ ∀ p, udpQueue.Reaches System.anyStep p → StepRight p (.precv 0 0) := by
  constructor
  · intro h
    obtain ⟨p, hp, hpay⟩ := exists_received []
      (p := fun p => p.2.map Datagram.payload == [[]]) (by decide +kernel) (by decide +kernel)
    have hin := (stepRight_iff (reaches_whole hp) _).mp (h p (hp.mono fun _ _ _ => trivial))
    obtain ⟨d, hd, hnil⟩ := List.map_eq_singleton_iff.mp (beq_iff_eq.mp hpay)
    exact (hin d (by rw [hd]; rfl)).2 hnil
  · intro h
    obtain ⟨p, hp, hpay⟩ := exists_received [1, 2, 3]
      (p := fun p => p.2.map Datagram.payload == [[1, 2, 3]]) (by decide +kernel)
      (by decide +kernel)
    have hin := (stepRight_iff (reaches_whole hp) _).mp (h p (hp.mono fun _ _ _ => trivial))
    obtain ⟨d, hd, -⟩ := List.map_eq_singleton_iff.mp (beq_iff_eq.mp hpay)
    exact absurd (hin d (by rw [hd]; rfl)).1 (by decide)

end MiMic.NetIf
