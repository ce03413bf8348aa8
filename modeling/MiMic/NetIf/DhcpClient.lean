import MiMic.Lib.System
import MiMic.NetIf.Arp

/-!
# The DHCP client

`onPacket` runs on the receiving task while `dhcpRequest` waits for what it does to the status.
The status is left as it is when an attempt fails, and the search for an option stands still at
one of an unexpected size.
-/
namespace MiMic.NetIf

open Verif

deriving instance DecidableEq for IPv4Config
deriving instance DecidableEq for EthConfig

/-- A datagram as the handler sees it: memory, and the size that the socket reports. -/
structure DhcpPacket where
  buf : Memory
  size : UInt16

/-- `sizeof(struct NyLPC_TDhcpHeader)`. -/
abbrev sizeOfDhcpHeader : Nat := 236

def bootReply : UInt8 := 2

def optIdNetmask : UInt8 := 1
def optIdRouter : UInt8 := 3
def optIdMessageType : UInt8 := 53
def optIdServerId : UInt8 := 54

def messageTypeOffer : UInt8 := 2
def messageTypeAck : UInt8 := 5

/-- `TcDhcpSock_ST_*`; `other` is what stands in the field before the first request. -/
inductive DhcpStatus
  | other
  | waitOffer
  | waitOfferOk
  | waitAck
  | waitAckOk
deriving DecidableEq, Repr

structure DhcpClient where
  result : EthConfig
  txid : UInt32
  status : DhcpStatus
  offerserver : IPv4Addr
deriving DecidableEq

/-- The loop of `getUInt32Option` and `getUInt8Option`, which look for an option of `size` bytes;
`none` is a loop that does not end. -/
def findOption (buf : Memory) (len : Nat) (id size : UInt8) : Nat → Nat → Option (Option Nat)
  | 0, _ => none
  | fuel + 1, p =>
      if buf p ≠ 0 ∧ p + 5 < len then
        if buf p = id then
          -- p stays where it is at another size
          if buf (p + 1) = size then some (some (p + 2)) else none
        else findOption buf len id size fuel (p + (buf (p + 1)).toNat + 2)
      else some none

/-- Every round moves on by two bytes at least, so that a round for every byte and one more are
enough. -/
theorem findOption_enough {buf : Memory} {len : Nat} {id size : UInt8} {fuel p : Nat}
    (h : len ≤ fuel + p) : findOption buf len id size (fuel + 2) p =
      findOption buf len id size (fuel + 1) p := by
  induction fuel generalizing p with
  | zero =>
    rw [findOption, if_neg (by omega), findOption, if_neg (by omega)]
  | succ fuel ih =>
    rw [findOption]
    conv_rhs => rw [findOption]
    split
    · split
      · rfl
      · exact ih (by omega)
    · rfl

namespace DhcpPacket

/-- An option of the packet: where its value stands, if there is one and the search ends. -/
def option (k : DhcpPacket) (id size : UInt8) : Option (Option Nat) :=
  findOption k.buf k.size.toNat id size (k.size.toNat + 1) (sizeOfDhcpHeader + 4)

def xid (k : DhcpPacket) : UInt32 := k.buf.u32 4

def yiaddr (k : DhcpPacket) : IPv4Addr := ⟨k.buf.u32 16⟩

/-- An address option, or `NyLPC_TIPv4Addr_ZERO` where there is none. -/
def addrAt (k : DhcpPacket) (at? : Option Nat) : IPv4Addr :=
  match at? with
  | some p => ⟨k.buf.u32 p⟩
  | none => ⟨0⟩

end DhcpPacket

namespace DhcpClient

/-- `NyLPC_TDhcpHeader_parseDHCPOFFER`; no answer is a search that does not end. -/
def parseDhcpOffer (c : DhcpClient) (k : DhcpPacket) : DhcpClient × Option Bool :=
  if k.xid ≠ htonl c.txid then (c, some false)
  else
    -- stored before the packet is known to be an offer of a server
    let stored := { c with result := { c.result with ipAddr := k.yiaddr } }
    match k.option optIdServerId 4 with
    | none => (stored, none)
    | some none => (stored, some false)
    | some (some p) => ({ stored with offerserver := ⟨k.buf.u32 p⟩ }, some true)

/-- `NyLPC_TDhcpHeader_parseDHCPACK`. -/
def parseDhcpAck (c : DhcpClient) (k : DhcpPacket) : DhcpClient × Option Bool :=
  if k.xid ≠ htonl c.txid then (c, some false)
  else
    match k.option optIdRouter 4 with
    | none => (c, none)
    | some router =>
        let routed := { c with result := { c.result with drAddr := k.addrAt router } }
        match k.option optIdNetmask 4 with
        | none => (routed, none)
        | some netmask =>
            ({ routed with
                result := { routed.result with
                  netmask := k.addrAt netmask
                  ipAddr := k.yiaddr } }, some true)

/-- A case of `onPacket`: a reply of the type that is waited for goes to its parser. The flag is
whether the handler returns. -/
def onReply (c : DhcpClient) (k : DhcpPacket) (messageType : UInt8)
    (parsed : DhcpClient × Option Bool) (next : DhcpStatus) : DhcpClient × Bool :=
  if k.buf 0 ≠ bootReply then (c, true)
  else
    match k.option optIdMessageType 1 with
    | none => (c, false)
    | some none => (c, true)
    | some (some p) =>
        if k.buf p ≠ messageType then (c, true)
        else
          match parsed with
          | (c, none) => (c, false)
          | (c, some false) => (c, true)
          | (c, some true) => ({ c with status := next }, true)

/-- `onPacket`. -/
def onPacket (c : DhcpClient) (k : DhcpPacket) : DhcpClient × Bool :=
  if k.size.toNat < sizeOfDhcpHeader + 1 then (c, true)
  else
    match c.status with
    | .waitAck => c.onReply k messageTypeAck (c.parseDhcpAck k) .waitAckOk
    | .waitOffer => c.onReply k messageTypeOffer (c.parseDhcpOffer k) .waitOfferOk
    | .waitOfferOk => (c, true)
    | .waitAckOk => (c, true)
    | .other => (c, true)

end DhcpClient

/-- Where `dhcpRequest` stands; `done` is what it returned. -/
inductive DhcpPhase
  | idle
  | discover
  | sendDiscover
  | waitOffer
  | request
  | sendRequest
  | waitAck
  | done (ret : Bool)
deriving DecidableEq, Repr

/-- The client, and whether the receiving task is caught in a search. -/
structure DhcpTask where
  client : DhcpClient
  phase : DhcpPhase
  hung : Bool
deriving DecidableEq

/-- A step: `begin` enters `dhcpRequest` with the structure to fill, `alloc` and `send` are the
calls of the socket, `poll` is a round of a waiting loop. -/
inductive DhcpEvent
  | begin (cfg : EthConfig)
  | alloc (ok : Bool)
  | send (ok : Bool)
  | poll (expired : Bool)
  | receive (k : DhcpPacket)

/-- What a request adds to the transaction id. -/
def txidStep (e : EthAddr) : UInt32 :=
  UInt32.ofNat (e.addr[2].toNat + 256 * e.addr[3].toNat + (e.addr[4].toNat + 256 * e.addr[5].toNat))

namespace DhcpTask

/-- A round of a waiting loop: it goes on behind the loop, or the time is over. -/
def pollStep (t : DhcpTask) (waiting ok : DhcpStatus) (next : DhcpPhase) (expired : Bool) : DhcpTask :=
  if t.client.status = waiting then if expired then { t with phase := .done false } else t
  else if t.client.status = ok then { t with phase := next }
  else { t with phase := .done false }

def step (t : DhcpTask) : DhcpEvent → Option DhcpTask
  | .begin cfg =>
      match t.phase with
      | .idle | .done _ =>
          some { t with
            client := { t.client with
              result := cfg
              txid := t.client.txid + txidStep cfg.ethMac }
            phase := .discover }
      | _ => none
  | .alloc ok =>
      match t.phase with
      | .discover =>
          if ok then
            some { t with
              client := { t.client with status := .waitOffer }
              phase := .sendDiscover }
          else some { t with phase := .done false }
      | .request =>
          if ok then
            some { t with
              client := { t.client with status := .waitAck }
              phase := .sendRequest }
          else some { t with phase := .done false }
      | _ => none
  | .send ok =>
      match t.phase with
      | .sendDiscover => some { t with phase := if ok then .waitOffer else .done false }
      | .sendRequest => some { t with phase := if ok then .waitAck else .done false }
      | _ => none
  | .poll expired =>
      match t.phase with
      | .waitOffer => some (t.pollStep .waitOffer .waitOfferOk .request expired)
      | .waitAck => some (t.pollStep .waitAck .waitAckOk (.done true) expired)
      | _ => none
  | .receive k =>
      if t.hung then none
      else some { t with client := (t.client.onPacket k).1, hung := !(t.client.onPacket k).2 }

end DhcpTask

def dhcp : System DhcpTask DhcpEvent where
  init t := t.phase = .idle ∧ t.hung = false
  step := DhcpTask.step

/-- What was accepted since the request was entered: the transaction of the offer, and that of
the acknowledgement. -/
structure DhcpHeard where
  offer : Option UInt32
  ack : Option UInt32
deriving DecidableEq, Repr

def DhcpHeard.note (b : DhcpHeard) (t : DhcpTask) (e : DhcpEvent) (t' : DhcpTask) : DhcpHeard :=
  match e with
  | .begin _ => ⟨none, none⟩
  | .receive _ =>
      if t'.client.status = t.client.status then b
      else if t'.client.status = .waitOfferOk then { b with offer := some t.client.txid }
      else { b with ack := some t.client.txid }
  | .alloc _ => b
  | .send _ => b
  | .poll _ => b

def heardDhcp : System (DhcpTask × DhcpHeard) DhcpEvent := dhcp.observe ⟨none, none⟩ DhcpHeard.note

/-- A reply of a message type and of the client's transaction. -/
structure DhcpPacket.IsReply (k : DhcpPacket) (c : DhcpClient) (messageType : UInt8) : Prop where
  op : k.buf 0 = bootReply
  xid : k.xid = htonl c.txid
  type : ∃ p, k.option optIdMessageType 1 = some (some p) ∧ k.buf p = messageType

/-- An offer is accepted: its address and its server are kept. -/
structure OfferAccepted (c : DhcpClient) (k : DhcpPacket) (c' : DhcpClient) : Prop where
  waiting : c.status = .waitOffer
  reply : k.IsReply c messageTypeOffer
  stored : ∃ p, k.option optIdServerId 4 = some (some p) ∧
    c' = { c with
      result := { c.result with ipAddr := k.yiaddr }
      offerserver := ⟨k.buf.u32 p⟩
      status := .waitOfferOk }

/-- An acknowledgement is accepted: address, netmask and router are those of the packet. -/
structure AckAccepted (c : DhcpClient) (k : DhcpPacket) (c' : DhcpClient) : Prop where
  waiting : c.status = .waitAck
  reply : k.IsReply c messageTypeAck
  stored : ∃ router netmask, k.option optIdRouter 4 = some router ∧
    k.option optIdNetmask 4 = some netmask ∧
    c' = { c with
      result := { c.result with
        ipAddr := k.yiaddr
        netmask := k.addrAt netmask
        drAddr := k.addrAt router }
      status := .waitAckOk }

/-- An offer of the transaction that names no server touches the address of the result only. -/
structure Serverless (c : DhcpClient) (k : DhcpPacket) (c' : DhcpClient) : Prop where
  waiting : c.status = .waitOffer
  reply : k.IsReply c messageTypeOffer
  server : k.option optIdServerId 4 = some none
  stored : c' = { c with result := { c.result with ipAddr := k.yiaddr } }

namespace DhcpClient

variable {c : DhcpClient} {k : DhcpPacket}

/-- A reply is ignored, or comes to its parser. -/
theorem onReply_cases {messageType : UInt8} {parsed : DhcpClient × Option Bool} {next : DhcpStatus}
    (hret : (c.onReply k messageType parsed next).2 = true) :
    (c.onReply k messageType parsed next).1 = c ∨
      (k.buf 0 = bootReply ∧ ∃ p, k.option optIdMessageType 1 = some (some p) ∧
        k.buf p = messageType ∧
        ((parsed.2 = some false ∧ (c.onReply k messageType parsed next).1 = parsed.1) ∨
          (parsed.2 = some true ∧
            (c.onReply k messageType parsed next).1 = { parsed.1 with status := next }))) := by
  unfold onReply at hret ⊢
  split at hret
  · next hop =>
    rw [if_pos hop]
    exact Or.inl rfl
  · next hop =>
    rw [if_neg hop]
    cases hopt : k.option optIdMessageType 1 with
    | none =>
      rw [hopt] at hret
      cases hret
    | some found =>
      cases found with
      | none => exact Or.inl rfl
      | some p =>
        simp only [hopt] at hret ⊢
        split at hret
        · next htype =>
          rw [if_pos htype]
          exact Or.inl rfl
        · next htype =>
          rw [if_neg htype]
          obtain ⟨c', answer⟩ := parsed
          refine Or.inr ⟨not_not.mp hop, p, rfl, not_not.mp htype, ?_⟩
          cases answer with
          | none => cases hret
          | some b =>
            cases b with
            | false => exact Or.inl ⟨rfl, rfl⟩
            | true => exact Or.inr ⟨rfl, rfl⟩

theorem parseDhcpOffer_cases {b : Bool} (h : (c.parseDhcpOffer k).2 = some b) :
    (k.xid ≠ htonl c.txid ∧ c.parseDhcpOffer k = (c, some false)) ∨
      (k.xid = htonl c.txid ∧ b = false ∧ k.option optIdServerId 4 = some none ∧
        (c.parseDhcpOffer k).1 = { c with result := { c.result with ipAddr := k.yiaddr } }) ∨
      (k.xid = htonl c.txid ∧ b = true ∧ ∃ p, k.option optIdServerId 4 = some (some p) ∧
        (c.parseDhcpOffer k).1 = { c with
          result := { c.result with ipAddr := k.yiaddr }
          offerserver := ⟨k.buf.u32 p⟩ }) := by
  unfold parseDhcpOffer at h ⊢
  split at h
  · next hxid =>
    rw [if_pos hxid]
    exact Or.inl ⟨hxid, rfl⟩
  · next hxid =>
    rw [if_neg hxid]
    cases hopt : k.option optIdServerId 4 with
    | none =>
      rw [hopt] at h
      cases h
    | some found =>
      cases found with
      | none =>
        simp only [hopt, Option.some.injEq] at h
        exact Or.inr (Or.inl ⟨not_not.mp hxid, h.symm, rfl, rfl⟩)
      | some p =>
        simp only [hopt, Option.some.injEq] at h
        exact Or.inr (Or.inr ⟨not_not.mp hxid, h.symm, p, rfl, rfl⟩)

theorem parseDhcpAck_cases {b : Bool} (h : (c.parseDhcpAck k).2 = some b) :
    (k.xid ≠ htonl c.txid ∧ c.parseDhcpAck k = (c, some false)) ∨
      (k.xid = htonl c.txid ∧ b = true ∧ ∃ router netmask,
        k.option optIdRouter 4 = some router ∧ k.option optIdNetmask 4 = some netmask ∧
        (c.parseDhcpAck k).1 = { c with
          result := { c.result with
            ipAddr := k.yiaddr
            netmask := k.addrAt netmask
            drAddr := k.addrAt router } }) := by
  unfold parseDhcpAck at h ⊢
  split at h
  · next hxid =>
    rw [if_pos hxid]
    exact Or.inl ⟨hxid, rfl⟩
  · next hxid =>
    rw [if_neg hxid]
    cases hrouter : k.option optIdRouter 4 with
    | none =>
      rw [hrouter] at h
      cases h
    | some router =>
      cases hnetmask : k.option optIdNetmask 4 with
      | none =>
        simp only [hrouter, hnetmask] at h
        cases h
      | some netmask =>
        simp only [hrouter, hnetmask, Option.some.injEq] at h
        exact Or.inr ⟨not_not.mp hxid, h.symm, router, netmask, rfl, rfl, rfl⟩

theorem onOffer_cases (hst : c.status = .waitOffer)
    (hret : (c.onReply k messageTypeOffer (c.parseDhcpOffer k) .waitOfferOk).2 = true) :
    (c.onReply k messageTypeOffer (c.parseDhcpOffer k) .waitOfferOk).1 = c ∨
      OfferAccepted c k (c.onReply k messageTypeOffer (c.parseDhcpOffer k) .waitOfferOk).1 ∨
        Serverless c k (c.onReply k messageTypeOffer (c.parseDhcpOffer k) .waitOfferOk).1 := by
  rcases onReply_cases hret with hsame | ⟨hop, p, hp, htype, hparsed⟩
  · exact Or.inl hsame
  · have hsome : ∃ b, (c.parseDhcpOffer k).2 = some b :=
      hparsed.elim (fun h => ⟨_, h.1⟩) fun h => ⟨_, h.1⟩
    obtain ⟨b, hb⟩ := hsome
    rcases parseDhcpOffer_cases hb with ⟨-, hsame⟩ | ⟨hxid, rfl, hnone, hstored⟩ |
      ⟨hxid, rfl, q, hq, hstored⟩
    · rw [hsame] at hparsed ⊢
      obtain ⟨-, heq⟩ | ⟨hno, -⟩ := hparsed
      · exact Or.inl heq
      · cases hno
    · obtain ⟨-, heq⟩ | ⟨hyes, -⟩ := hparsed
      · exact Or.inr (Or.inr ⟨hst, ⟨hop, hxid, p, hp, htype⟩, hnone, heq.trans hstored⟩)
      · rw [hb] at hyes
        cases hyes
    · obtain ⟨hno, -⟩ | ⟨-, heq⟩ := hparsed
      · rw [hb] at hno
        cases hno
      · rw [heq, hstored]
        exact Or.inr (Or.inl ⟨hst, ⟨hop, hxid, p, hp, htype⟩, q, hq, rfl⟩)

theorem onAck_cases (hst : c.status = .waitAck)
    (hret : (c.onReply k messageTypeAck (c.parseDhcpAck k) .waitAckOk).2 = true) :
    (c.onReply k messageTypeAck (c.parseDhcpAck k) .waitAckOk).1 = c ∨
      AckAccepted c k (c.onReply k messageTypeAck (c.parseDhcpAck k) .waitAckOk).1 := by
  rcases onReply_cases hret with hsame | ⟨hop, p, hp, htype, hparsed⟩
  · exact Or.inl hsame
  · have hsome : ∃ b, (c.parseDhcpAck k).2 = some b :=
      hparsed.elim (fun h => ⟨_, h.1⟩) fun h => ⟨_, h.1⟩
    obtain ⟨b, hb⟩ := hsome
    rcases parseDhcpAck_cases hb with ⟨-, hsame⟩ | ⟨hxid, rfl, router, netmask, hr, hn, hstored⟩
    · rw [hsame] at hparsed ⊢
      obtain ⟨-, heq⟩ | ⟨hno, -⟩ := hparsed
      · exact Or.inl heq
      · cases hno
    · obtain ⟨hno, -⟩ | ⟨-, heq⟩ := hparsed
      · rw [hb] at hno
        cases hno
      · rw [heq, hstored]
        exact Or.inr ⟨hst, ⟨hop, hxid, p, hp, htype⟩, router, netmask, hr, hn, rfl⟩

/-- Whatever packet the handler returns from: it leaves the client as it was, is an accepted
offer or acknowledgement, or an offer that names no server. -/
theorem onPacket_cases (hret : (c.onPacket k).2 = true) :
    (c.onPacket k).1 = c ∨ OfferAccepted c k (c.onPacket k).1 ∨
      AckAccepted c k (c.onPacket k).1 ∨ Serverless c k (c.onPacket k).1 := by
  unfold onPacket at hret ⊢
  split at hret
  · next hsize =>
    rw [if_pos hsize]
    exact Or.inl rfl
  · next hsize =>
    rw [if_neg hsize]
    cases hst : c.status with
    | other => exact Or.inl rfl
    | waitOfferOk => exact Or.inl rfl
    | waitAckOk => exact Or.inl rfl
    | waitAck =>
      simp only [hst] at hret ⊢
      exact (onAck_cases hst hret).imp_right fun hack => Or.inr (Or.inl hack)
    | waitOffer =>
      simp only [hst] at hret ⊢
      exact (onOffer_cases hst hret).imp_right fun hoffer => hoffer.imp_right Or.inr

/-- The answer to a reply moves the status on only where the handler returns. -/
theorem onReply_status (messageType : UInt8) (next : DhcpStatus) {parsed : DhcpClient × Option Bool}
    (htxid : parsed.1.txid = c.txid) (hstatus : parsed.1.status = c.status) :
    (c.onReply k messageType parsed next).1.txid = c.txid ∧
      ((c.onReply k messageType parsed next).1.status = c.status ∨
        ((c.onReply k messageType parsed next).1.status = next ∧
          (c.onReply k messageType parsed next).2 = true)) := by
  unfold onReply
  split
  · exact ⟨rfl, Or.inl rfl⟩
  · split
    · exact ⟨rfl, Or.inl rfl⟩
    · exact ⟨rfl, Or.inl rfl⟩
    · split
      · exact ⟨rfl, Or.inl rfl⟩
      · split
        · exact ⟨htxid, Or.inl hstatus⟩
        · exact ⟨htxid, Or.inl hstatus⟩
        · exact ⟨htxid, Or.inr ⟨rfl, rfl⟩⟩

theorem parseDhcpOffer_keeps (c : DhcpClient) (k : DhcpPacket) :
    (c.parseDhcpOffer k).1.txid = c.txid ∧ (c.parseDhcpOffer k).1.status = c.status := by
  unfold parseDhcpOffer
  split
  · exact ⟨rfl, rfl⟩
  · dsimp only
    split <;> exact ⟨rfl, rfl⟩

theorem parseDhcpAck_keeps (c : DhcpClient) (k : DhcpPacket) :
    (c.parseDhcpAck k).1.txid = c.txid ∧ (c.parseDhcpAck k).1.status = c.status := by
  unfold parseDhcpAck
  split
  · exact ⟨rfl, rfl⟩
  · split
    · exact ⟨rfl, rfl⟩
    · dsimp only
      split <;> exact ⟨rfl, rfl⟩

/-- The receiver moves the status only from a waiting one to the one behind it, with a packet
that the handler returns from, and never the transaction. -/
theorem onPacket_status (c : DhcpClient) (k : DhcpPacket) :
    (c.onPacket k).1.txid = c.txid ∧ ((c.onPacket k).1.status = c.status ∨
      (c.status = .waitOffer ∧ (c.onPacket k).1.status = .waitOfferOk ∧ (c.onPacket k).2 = true) ∨
      (c.status = .waitAck ∧ (c.onPacket k).1.status = .waitAckOk ∧ (c.onPacket k).2 = true)) := by
  unfold onPacket
  split
  · exact ⟨rfl, Or.inl rfl⟩
  · split
    · next hst =>
      obtain ⟨htxid, hstatus⟩ := c.parseDhcpAck_keeps k
      obtain ⟨htxid, hs⟩ := onReply_status (k := k) messageTypeAck .waitAckOk htxid hstatus
      exact ⟨htxid, hs.imp_right fun h => Or.inr ⟨hst, h⟩⟩
    · next hst =>
      obtain ⟨htxid, hstatus⟩ := c.parseDhcpOffer_keeps k
      obtain ⟨htxid, hs⟩ := onReply_status (k := k) messageTypeOffer .waitOfferOk htxid hstatus
      exact ⟨htxid, hs.imp_right fun h => Or.inl ⟨hst, h⟩⟩
    · exact ⟨rfl, Or.inl rfl⟩
    · exact ⟨rfl, Or.inl rfl⟩
    · exact ⟨rfl, Or.inl rfl⟩

/-- A packet that moves the status on is accepted. -/
theorem onPacket_moved (h : (c.onPacket k).1.status ≠ c.status) :
    OfferAccepted c k (c.onPacket k).1 ∨ AckAccepted c k (c.onPacket k).1 := by
  have hret : (c.onPacket k).2 = true := by
    obtain ⟨-, hsame | ⟨-, -, hret⟩ | ⟨-, -, hret⟩⟩ := c.onPacket_status k
    · exact absurd hsame h
    · exact hret
    · exact hret
  obtain hsame | hoffer | hack | hserver := onPacket_cases hret
  · exact absurd (congrArg DhcpClient.status hsame) h
  · exact Or.inl hoffer
  · exact Or.inr hack
  · exact absurd (congrArg DhcpClient.status hserver.stored) h

end DhcpClient

end MiMic.NetIf
