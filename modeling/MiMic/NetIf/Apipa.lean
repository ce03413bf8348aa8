import MiMic.NetIf.ArpRuns

/-!
# Link-local addresses

`NyLPC_cApipa_requestAddr` draws candidates from a generator on 32 bits and probes each of them
twice, once without an address and once under the candidate. The clock and the ARP table are what
the thread finds whenever it looks; the calls to the network service are recorded.
-/
namespace MiMic.NetIf

open Verif

structure Apipa where
  seed : UInt32
deriving DecidableEq, Repr

/-- `NyLPC_cApipa_initialize`. -/
def Apipa.initialized : Apipa := ⟨0⟩

/-- `updateSeed`. -/
def updateSeed : Nat → Apipa → Option Apipa
  | 0, _ => none
  | fuel + 1, inst =>
      let inst : Apipa := ⟨391 * inst.seed + 392⟩
      if inst.seed &&& 0xff = 0 ∨ inst.seed &&& 0xff00 = 0 then updateSeed fuel inst else some inst

/-- `NyLPC_TIPv4Addr_set`. -/
def IPv4Addr.set (a0 a1 a2 a3 : UInt32) : IPv4Addr :=
  ⟨htonl (((0xff000000 : UInt32) &&& (a0 <<< (24 : UInt32))) |||
    ((0x00ff0000 : UInt32) &&& (a1 <<< (16 : UInt32))) |||
    ((0x0000ff00 : UInt32) &&& (a2 <<< (8 : UInt32))) ||| ((0x000000ff : UInt32) &&& a3))⟩

/-- `NyLPC_TIPv4Addr_APIPA_MASK`. -/
def apipaMask : IPv4Addr := IPv4Addr.set 255 255 0 0

def ipZero : IPv4Addr := ⟨0⟩

def makeIP (inst : Apipa) : IPv4Addr :=
  IPv4Addr.set 169 254 ((inst.seed >>> (8 : UInt32)) &&& 0xff) (inst.seed &&& 0xff)

/-- What a probe phase finds: the times its stopwatch reads, the first of them when it is started,
and the ARP table at each lookup. The clock does not stand still. -/
structure ProbePhase where
  now : Nat → UInt32
  arp : Nat → IPv4Arp
  passes : ∀ ms ≤ 1024, ∃ n, ms < (now (n + 1) - now 0).toNat

/-- `NyLPC_cMiMicIpNetIf_hasArpInfo`. -/
def hasArpInfo (s : IPv4Arp) (ip : IPv4Addr) : Bool := (s.iPv4toEthAddr ip).isSome

/-- `NyLPC_cStopwatch_isExpired` of a stopwatch that was started with a timeout. -/
def ProbePhase.isExpired (env : ProbePhase) (timeout : UInt32) (n : Nat) : Bool :=
  decide (timeout < env.now (n + 1) - env.now 0)

/-- The loop of `waitForArpResponse` from its `n`-th pass on. -/
def waitLoop (env : ProbePhase) (ip : IPv4Addr) (timeout : UInt32) : Nat → Nat → Option Bool
  | 0, _ => none
  | fuel + 1, n =>
      if env.isExpired timeout n then some false
      else if hasArpInfo (env.arp n) ip then some true
      else waitLoop env ip timeout fuel (n + 1)

def waitForArpResponse (fuel : Nat) (env : ProbePhase) (ip : IPv4Addr) (timeout : UInt32) :
    Option Bool :=
  waitLoop env ip timeout fuel 0

/-- The calls of the network service. -/
inductive NetCall
  | start (cfg : EthConfig)
  | sendArpRequest (ip : IPv4Addr)
  | stop

/-- The configuration the service runs with: `start` does nothing while it runs. -/
def NetCall.apply (run : Option EthConfig) : NetCall → Option EthConfig
  | .start cfg => some (run.getD cfg)
  | .sendArpRequest _ => run
  | .stop => none

/-- The service after some calls; it is stopped before them. -/
def serviceAfter (calls : List NetCall) : Option EthConfig := calls.foldl NetCall.apply none

/-- `NyLPC_cIPv4Config_setIp`. -/
def EthConfig.setIp (cfg : EthConfig) (ip mask : IPv4Addr) : EthConfig :=
  { cfg with ipAddr := ip, netmask := mask }

/-- `NyLPC_cIPv4Config_setDefaultRoute`. -/
def EthConfig.setDefaultRoute (cfg : EthConfig) (dr : IPv4Addr) : EthConfig :=
  { cfg with drAddr := dr }

/-- The generator, the local configuration and the calls so far. -/
structure ApipaRun where
  inst : Apipa
  cfg : EthConfig
  calls : List NetCall

/-- One pass of the loop of `NyLPC_cApipa_requestAddr`; `true` when no host answered. -/
def attempt (fuel : Nat) (env : ProbePhase × ProbePhase) (r : ApipaRun) : Option (Bool × ApipaRun) :=
  (updateSeed fuel r.inst).bind fun inst =>
    let cfg := r.cfg.setIp ipZero ipZero
    let caip := makeIP inst
    let calls := r.calls ++ [.start cfg, .sendArpRequest caip]
    (waitForArpResponse fuel env.1 caip (512 + inst.seed % 256)).bind fun answered =>
      if answered then some (false, ⟨inst, cfg, calls ++ [.stop]⟩)
      else
        let cfg := cfg.setIp caip apipaMask
        let calls := calls ++ [.stop, .start cfg, .sendArpRequest caip]
        (waitForArpResponse fuel env.2 caip (512 + (256 - inst.seed % 256))).map fun answered =>
          (!answered, ⟨inst, cfg, calls ++ [.stop]⟩)

/-- The passes that are left, with what each of them finds. -/
def attempts (fuel : Nat) (env : Nat → ProbePhase × ProbePhase) :
    Nat → Nat → ApipaRun → Option (Bool × ApipaRun)
  | 0, _, r => some (false, r)
  | left + 1, k, r =>
      (attempt fuel (env k) r).bind fun p =>
        if p.1 then some (true, p.2) else attempts fuel env left (k + 1) p.2

/-- The seed of a request: the bytes of the MAC address are added to the last one. -/
def Apipa.addMac (inst : Apipa) (mac : EthAddr) : Apipa :=
  ⟨mac.addr.toList.foldl (fun s b => s + b.toUInt32) inst.seed⟩

structure ApipaResult where
  ok : Bool
  inst : Apipa
  cfg : EthConfig
  calls : List NetCall

/-- `NyLPC_cApipa_requestAddr`; `env k` is what the `k`-th pass finds. -/
def apipaRequestAddr (fuel : Nat) (env : Nat → ProbePhase × ProbePhase) (inst : Apipa)
    (cfg : EthConfig) (repeats : Int16) : Option ApipaResult :=
  (attempts fuel env repeats.toInt.toNat 0
      ⟨inst.addMac cfg.ethMac, cfg.setDefaultRoute ipZero, []⟩).map fun p =>
    { ok := p.1
      inst := p.2.inst
      cfg := if p.1 then cfg.setIp p.2.cfg.ipAddr p.2.cfg.netmask else cfg
      calls := p.2.calls }

/-- The sixteen bits of the seed that end up in an address. -/
def Apipa.low (inst : Apipa) : Nat := inst.seed.toNat % 65536

/-- The generator on these bits. -/
def lcg (x : Nat) : Nat := (391 * x + 392) % 65536

def HasZeroByte (x : Nat) : Prop := x % 256 = 0 ∨ x / 256 = 0

instance (x : Nat) : Decidable (HasZeroByte x) := inferInstanceAs (Decidable (_ ∨ _))

/-- The seeds from which the generator goes on to a value with the high byte 255. -/
def Apipa.Reserved (inst : Apipa) : Prop :=
  0xff00 < lcg inst.low ∨ inst.low = 0x6772 ∨ inst.low = 0x69c8

theorem low_next (inst : Apipa) : Apipa.low ⟨391 * inst.seed + 392⟩ = lcg inst.low := by
  unfold Apipa.low lcg
  simp only [UInt32.toNat_add, UInt32.toNat_mul, UInt32.reduceToNat]
  omega

theorem and_low_eq_zero (n : UInt32) : n &&& 0xff = 0 ↔ n.toNat % 65536 % 256 = 0 := by
  rw [← UInt32.toNat_inj, UInt32.toNat_and]
  show n.toNat &&& 255 <<< 0 = 0 ↔ _
  rw [and_byteMask]
  simp only [pow_zero, Nat.div_one, Nat.shiftLeft_zero]
  omega

theorem and_high_eq_zero (n : UInt32) : n &&& 0xff00 = 0 ↔ n.toNat % 65536 / 256 = 0 := by
  rw [← UInt32.toNat_inj, UInt32.toNat_and]
  show n.toNat &&& 255 <<< 8 = 0 ↔ _
  rw [and_byteMask, Nat.shiftLeft_eq]
  omega

theorem updateSeed_succ (fuel : Nat) (inst : Apipa) :
    updateSeed (fuel + 1) inst =
      if HasZeroByte (lcg inst.low) then updateSeed fuel ⟨391 * inst.seed + 392⟩
      else some ⟨391 * inst.seed + 392⟩ := by
  have hcond : ((391 * inst.seed + 392 &&& 0xff = 0) ∨ (391 * inst.seed + 392 &&& 0xff00 = 0)) ↔
      HasZeroByte (lcg inst.low) := by
    rw [and_low_eq_zero, and_high_eq_zero, ← low_next]
    exact Iff.rfl
  rw [updateSeed]
  simp only [hcond]

theorem lcg_lt (x : Nat) : lcg x < 65536 := Nat.mod_lt _ (by norm_num)

/-- 391 is odd: the generator is one to one on the sixteen bits. -/
theorem lcg_inj {x y : Nat} (hx : x < 65536) (hy : y < 65536) (h : lcg x = lcg y) : x = y := by
  unfold lcg at h
  omega

/-- The value behind one with a zero byte, or the one after it, has none. Two of them lead to the
high byte 255. -/
def Recovers (x : Nat) : Prop :=
  (HasZeroByte (lcg x) → ¬ HasZeroByte (lcg (lcg x)) ∧
      (lcg (lcg x) / 256 = 255 ↔ x = lcg 0x6772 ∨ x = lcg 0x69c8)) ∧
    (¬ HasZeroByte (lcg x) → (lcg x / 256 = 255 ↔ x = lcg 0x6772 ∨ x = lcg 0x69c8))

instance (x : Nat) : Decidable (Recovers x) := inferInstanceAs (Decidable (_ ∧ _))

theorem recovers_of_zeroByte {x : Nat} (hx : x < 65536) (hz : HasZeroByte x) : Recovers x := by
  have hlow : ∀ l < 256, Recovers (256 * l) := by decide +kernel
  have hhigh : ∀ h < 256, Recovers h := by decide +kernel
  rcases hz with hz | hz
  · have he : x = 256 * (x / 256) := by omega
    rw [he]
    exact hlow _ (by omega)
  · exact hhigh x (by omega)

/-- The next seed that the generator stops at. -/
def Apipa.drawn (inst : Apipa) : Apipa := (updateSeed 3 inst).getD inst

theorem reserved_of_zeroByte {inst : Apipa} (hz : HasZeroByte (lcg inst.low)) :
    inst.Reserved ↔ lcg inst.low = lcg 0x6772 ∨ lcg inst.low = lcg 0x69c8 := by
  have hlow : inst.low < 65536 := Nat.mod_lt _ (by norm_num)
  have hbelow : ¬ 0xff00 < lcg inst.low := by
    unfold HasZeroByte at hz
    have hlt := lcg_lt inst.low
    omega
  unfold Apipa.Reserved
  rw [or_iff_right hbelow]
  constructor
  · rintro (h | h) <;> rw [h]
    · exact Or.inl rfl
    · exact Or.inr rfl
  · rintro (h | h)
    · exact Or.inl (lcg_inj hlow (by norm_num) h)
    · exact Or.inr (lcg_inj hlow (by norm_num) h)

theorem reserved_of_not_zeroByte {inst : Apipa} (hz : ¬ HasZeroByte (lcg inst.low)) :
    inst.Reserved ↔ lcg inst.low / 256 = 255 := by
  have hlt := lcg_lt inst.low
  unfold Apipa.Reserved
  have hnot : ¬ (inst.low = 0x6772 ∨ inst.low = 0x69c8) := by
    rintro (h | h) <;> rw [h] at hz <;> exact hz (by decide)
  rw [or_iff_left hnot]
  unfold HasZeroByte at hz
  omega

/-- Three rounds are enough for a seed without a zero byte. -/
theorem updateSeed_drawn (inst : Apipa) :
    (∀ fuel, 3 ≤ fuel → updateSeed fuel inst = some inst.drawn) ∧
      ¬ HasZeroByte inst.drawn.low ∧ (inst.drawn.low / 256 = 255 ↔ inst.Reserved) := by
  have hdone : ∀ out : Apipa, (∀ fuel, updateSeed (fuel + 3) inst = some out) →
      ¬ HasZeroByte out.low → (out.low / 256 = 255 ↔ inst.Reserved) →
      (∀ fuel, 3 ≤ fuel → updateSeed fuel inst = some inst.drawn) ∧
        ¬ HasZeroByte inst.drawn.low ∧ (inst.drawn.low / 256 = 255 ↔ inst.Reserved) := by
    intro out hrun hz hres
    have hout : inst.drawn = out := by
      rw [Apipa.drawn, hrun 0]
      rfl
    rw [hout]
    refine ⟨fun fuel hle => ?_, hz, hres⟩
    obtain ⟨k, rfl⟩ := Nat.exists_eq_add_of_le' hle
    exact hrun k
  by_cases h1 : HasZeroByte (lcg inst.low)
  · have hrec : Recovers (lcg inst.low) := recovers_of_zeroByte (lcg_lt inst.low) h1
    by_cases h2 : HasZeroByte (lcg (lcg inst.low))
    · obtain ⟨hz3, hres3⟩ := hrec.1 h2
      refine hdone ⟨391 * (391 * (391 * inst.seed + 392) + 392) + 392⟩ ?_ ?_ ?_
      · intro fuel
        rw [updateSeed_succ, if_pos h1, updateSeed_succ, low_next, if_pos h2, updateSeed_succ,
          low_next, low_next, if_neg hz3]
      · rw [low_next, low_next, low_next]
        exact hz3
      · rw [low_next, low_next, low_next, hres3, reserved_of_zeroByte h1]
    · refine hdone ⟨391 * (391 * inst.seed + 392) + 392⟩ ?_ ?_ ?_
      · intro fuel
        rw [updateSeed_succ, if_pos h1, updateSeed_succ, low_next, if_neg h2]
      · rw [low_next, low_next]
        exact h2
      · rw [low_next, low_next, hrec.2 h2, reserved_of_zeroByte h1]
  · refine hdone ⟨391 * inst.seed + 392⟩ ?_ ?_ ?_
    · intro fuel
      rw [updateSeed_succ, if_neg h1]
    · rw [low_next]
      exact h1
    · rw [low_next, reserved_of_not_zeroByte h1]

/-- 169.254.1.0 to 169.254.254.255. -/
def LinkLocal (ip : IPv4Addr) : Prop :=
  0xA9FE0100 ≤ (ntohl ip.v).toNat ∧ (ntohl ip.v).toNat ≤ 0xA9FEFEFF

theorem toNat_makeIP (inst : Apipa) :
    (ntohl (makeIP inst).v).toNat = 0xA9FE0000 + inst.low := by
  have hs := inst.seed.toNat_lt
  have h1 : ((0xff000000 : UInt32) &&& ((169 : UInt32) <<< (24 : UInt32))).toNat = 169 <<< 24 := rfl
  have h2 : ((0x00ff0000 : UInt32) &&& ((254 : UInt32) <<< (16 : UInt32))).toNat = 254 <<< 16 := rfl
  have hthird : ((inst.seed >>> (8 : UInt32)) &&& 0xff).toNat = inst.seed.toNat / 256 % 256 := by
    rw [UInt32.toNat_and]
    refine (and_byteMask _ 0).trans ?_
    rw [UInt32.toNat_shiftRight, Nat.shiftRight_eq_div_pow]
    simp
  have hfourth : (inst.seed &&& 0xff).toNat = inst.seed.toNat % 256 := by
    rw [UInt32.toNat_and]
    refine (and_byteMask _ 0).trans ?_
    simp
  have h3 : ((0x0000ff00 : UInt32) &&&
      (((inst.seed >>> (8 : UInt32)) &&& 0xff) <<< (8 : UInt32))).toNat =
        (inst.seed.toNat / 256 % 256) <<< 8 := by
    rw [UInt32.and_comm, UInt32.toNat_and]
    refine (and_byteMask _ 8).trans (congrArg (· <<< 8) ?_)
    rw [UInt32.toNat_shiftLeft, hthird, Nat.shiftLeft_eq]
    simp
    omega
  have h4 : ((0x000000ff : UInt32) &&& (inst.seed &&& 0xff)).toNat = inst.seed.toNat % 256 := by
    rw [UInt32.and_comm, UInt32.toNat_and]
    refine (and_byteMask _ 0).trans ?_
    rw [hfourth]
    simp
  rw [makeIP, IPv4Addr.set, ntohl_htonl, UInt32.toNat_or, UInt32.toNat_or, UInt32.toNat_or, h1, h2,
    h3, h4, Nat.or_assoc, Nat.or_assoc,
    ← Nat.shiftLeft_add_eq_or_of_lt (i := 8) (by omega),
    ← Nat.shiftLeft_add_eq_or_of_lt (i := 16) (by simp only [Nat.shiftLeft_eq]; omega),
    ← Nat.shiftLeft_add_eq_or_of_lt (i := 24) (by simp only [Nat.shiftLeft_eq]; omega)]
  simp only [Nat.shiftLeft_eq, Apipa.low]
  omega

theorem linkLocal_makeIP (inst : Apipa) :
    LinkLocal (makeIP inst.drawn) ↔ ¬ inst.Reserved := by
  obtain ⟨-, hz, hres⟩ := updateSeed_drawn inst
  have hlow : inst.drawn.low < 65536 := Nat.mod_lt _ (by norm_num)
  unfold LinkLocal
  rw [toNat_makeIP, ← hres]
  unfold HasZeroByte at hz
  omega

/-- The lookups that take place before the stopwatch expires. -/
def ProbePhase.Looks (env : ProbePhase) (timeout : UInt32) (n : Nat) : Prop :=
  ∀ m ≤ n, env.isExpired timeout m = false

/-- No lookup of the phase found an entry. -/
def ProbePhase.Silent (env : ProbePhase) (timeout : UInt32) (ip : IPv4Addr) : Prop :=
  ∀ n, env.Looks timeout n → hasArpInfo (env.arp n) ip = false

/-- What the loop answers from its `n`-th pass on, once it has `d` more passes to go. -/
def WaitAnswer (env : ProbePhase) (ip : IPv4Addr) (timeout : UInt32) (d n : Nat) (b : Bool) : Prop :=
  (∀ fuel, d < fuel → waitLoop env ip timeout fuel n = some b) ∧
    (b = false ↔ ∀ k, (∀ m ≤ k, env.isExpired timeout (n + m) = false) →
      hasArpInfo (env.arp (n + k)) ip = false)

section Loop

variable {env : ProbePhase} {ip : IPv4Addr} {timeout : UInt32} {d n : Nat}

theorem waitAnswer_expired (h : env.isExpired timeout n = true) :
    WaitAnswer env ip timeout d n false := by
  refine ⟨?_, iff_of_true rfl fun k hk => ?_⟩
  · intro fuel hlt
    obtain ⟨f, rfl⟩ : ∃ f, fuel = f + 1 := ⟨fuel - 1, by omega⟩
    rw [waitLoop, if_pos h]
  · have h0 := hk 0 (Nat.zero_le _)
    rw [Nat.add_zero, h] at h0
    cases h0

theorem waitAnswer_found (hnow : env.isExpired timeout n = false)
    (h : hasArpInfo (env.arp n) ip = true) : WaitAnswer env ip timeout d n true := by
  refine ⟨?_, iff_of_false Bool.noConfusion fun hall => ?_⟩
  · intro fuel hlt
    obtain ⟨f, rfl⟩ : ∃ f, fuel = f + 1 := ⟨fuel - 1, by omega⟩
    rw [waitLoop, hnow, if_neg Bool.false_ne_true, if_pos h]
  · have h0 := hall 0 fun m hm => by
      rw [Nat.le_zero.mp hm]
      exact hnow
    rw [Nat.add_zero, h] at h0
    cases h0

theorem WaitAnswer.pass {b : Bool} (hnow : env.isExpired timeout n = false)
    (hhas : hasArpInfo (env.arp n) ip = false) (h : WaitAnswer env ip timeout d (n + 1) b) :
    WaitAnswer env ip timeout (d + 1) n b := by
  refine ⟨?_, h.2.trans ⟨?_, ?_⟩⟩
  · intro fuel hlt
    obtain ⟨f, rfl⟩ : ∃ f, fuel = f + 1 := ⟨fuel - 1, by omega⟩
    rw [waitLoop, hnow, hhas, if_neg Bool.false_ne_true, if_neg Bool.false_ne_true]
    exact h.1 f (by omega)
  · intro hall k hk
    cases k with
    | zero => exact hhas
    | succ k =>
      rw [Nat.add_comm k 1, ← Nat.add_assoc]
      refine hall k fun m hm => ?_
      rw [Nat.add_assoc, Nat.add_comm 1 m]
      exact hk (m + 1) (by omega)
  · intro hall k hk
    rw [Nat.add_assoc, Nat.add_comm 1 k]
    refine hall (k + 1) fun m hm => ?_
    cases m with
    | zero => exact hnow
    | succ m =>
      rw [Nat.add_comm m 1, ← Nat.add_assoc]
      exact hk m (by omega)

theorem waitLoop_spec : ∀ {n : Nat}, env.isExpired timeout (n + d) = true →
    ∃ b, WaitAnswer env ip timeout d n b := by
  induction d with
  | zero => exact fun hexp => ⟨false, waitAnswer_expired hexp⟩
  | succ d ih =>
    intro n hexp
    cases hnow : env.isExpired timeout n with
    | true => exact ⟨false, waitAnswer_expired hnow⟩
    | false =>
      cases hhas : hasArpInfo (env.arp n) ip with
      | true => exact ⟨true, waitAnswer_found hnow hhas⟩
      | false =>
        have hexp' : env.isExpired timeout (n + 1 + d) = true := by
          rw [Nat.add_assoc, Nat.add_comm 1 d]
          exact hexp
        obtain ⟨b, hb⟩ := ih hexp'
        exact ⟨b, hb.pass hnow hhas⟩

end Loop

/-- A probe phase ends, and reports whether a lookup found an entry. -/
theorem waitForArpResponse_spec (env : ProbePhase) (ip : IPv4Addr) {timeout : UInt32}
    (ht : timeout.toNat ≤ 1024) :
    ∃ b N, (∀ fuel, N < fuel → waitForArpResponse fuel env ip timeout = some b) ∧
      (b = false ↔ env.Silent timeout ip) := by
  obtain ⟨d, hd⟩ := env.passes _ ht
  have hexp : env.isExpired timeout (0 + d) = true := by
    rw [Nat.zero_add, ProbePhase.isExpired, decide_eq_true_eq]
    exact UInt32.lt_iff_toNat_lt.mpr hd
  obtain ⟨b, hrun, hiff⟩ : ∃ b, WaitAnswer env ip timeout d 0 b := waitLoop_spec hexp
  refine ⟨b, d, hrun, hiff.trans ?_⟩
  unfold ProbePhase.Silent ProbePhase.Looks
  simp only [Nat.zero_add]

def firstTimeout (ip : IPv4Addr) : UInt32 := 512 + ntohl ip.v % 256

def secondTimeout (ip : IPv4Addr) : UInt32 := 512 + (256 - ntohl ip.v % 256)

/-- No entry for the address was found in either phase. -/
def Quiet (env : ProbePhase × ProbePhase) (ip : IPv4Addr) : Prop :=
  env.1.Silent (firstTimeout ip) ip ∧ env.2.Silent (secondTimeout ip) ip

theorem makeIP_mod (inst : Apipa) : ntohl (makeIP inst).v % 256 = inst.seed % 256 := by
  apply UInt32.toNat_inj.mp
  rw [UInt32.toNat_mod, UInt32.toNat_mod, toNat_makeIP]
  simp only [UInt32.reduceToNat, Apipa.low]
  omega

theorem timeout_le (ip : IPv4Addr) :
    (firstTimeout ip).toNat ≤ 1024 ∧ (secondTimeout ip).toNat ≤ 1024 := by
  have hlt : (ntohl ip.v % 256).toNat < 256 := by
    rw [UInt32.toNat_mod]
    exact Nat.mod_lt _ (by decide)
  unfold firstTimeout secondTimeout
  generalize ntohl ip.v % 256 = l at hlt ⊢
  rw [UInt32.toNat_add, UInt32.toNat_add, UInt32.toNat_sub]
  simp only [UInt32.reduceToNat]
  omega

@[simp] theorem serviceAfter_stop (calls : List NetCall) : serviceAfter (calls ++ [.stop]) = none := by
  rw [serviceAfter, List.foldl_append]
  rfl

/-- A pass draws the next candidate, leaves the service stopped, and succeeds when both its phases
are silent; then the local configuration holds the candidate. -/
theorem attempt_spec (env : ProbePhase × ProbePhase) (r : ApipaRun) :
    ∃ ok r' N, (∀ fuel, N < fuel → attempt fuel env r = some (ok, r')) ∧
      r'.inst = r.inst.drawn ∧ serviceAfter r'.calls = none ∧
      (ok = true ↔ Quiet env (makeIP r.inst.drawn)) ∧
      (ok = true → r'.cfg.ipAddr = makeIP r.inst.drawn ∧ r'.cfg.netmask = apipaMask) := by
  obtain ⟨hdraw, -, -⟩ := updateSeed_drawn r.inst
  obtain ⟨ht1, ht2⟩ := timeout_le (makeIP r.inst.drawn)
  obtain ⟨b1, N1, hrun1, hiff1⟩ := waitForArpResponse_spec env.1 (makeIP r.inst.drawn) ht1
  obtain ⟨b2, N2, hrun2, hiff2⟩ := waitForArpResponse_spec env.2 (makeIP r.inst.drawn) ht2
  rw [firstTimeout, makeIP_mod] at hrun1
  rw [secondTimeout, makeIP_mod] at hrun2
  have hmax (fuel : Nat) (h : 3 + N1 + N2 < fuel) : 3 ≤ fuel ∧ N1 < fuel ∧ N2 < fuel := by omega
  let cfg0 := r.cfg.setIp ipZero ipZero
  let cfg1 := cfg0.setIp (makeIP r.inst.drawn) apipaMask
  let calls1 := r.calls ++ [.start cfg0, .sendArpRequest (makeIP r.inst.drawn)]
  let calls2 := calls1 ++ [.stop, .start cfg1, .sendArpRequest (makeIP r.inst.drawn)]
  cases b1 with
  | true =>
    refine ⟨false, ⟨r.inst.drawn, cfg0, calls1 ++ [.stop]⟩, 3 + N1 + N2, ?_, rfl,
      serviceAfter_stop _, ?_, Bool.noConfusion⟩
    · intro fuel hlt
      obtain ⟨h3, h1, -⟩ := hmax fuel hlt
      simp only [attempt, hdraw fuel h3, Option.bind_some, hrun1 fuel h1, if_true]
      rfl
    · refine iff_of_false Bool.noConfusion fun hq => ?_
      cases hiff1.mpr hq.1
  | false =>
    refine ⟨!b2, ⟨r.inst.drawn, cfg1, calls2 ++ [.stop]⟩, 3 + N1 + N2, ?_, rfl,
      serviceAfter_stop _, ?_, fun _ => ⟨rfl, rfl⟩⟩
    · intro fuel hlt
      obtain ⟨h3, h1, h2⟩ := hmax fuel hlt
      simp only [attempt, hdraw fuel h3, Option.bind_some, hrun1 fuel h1, Bool.false_eq_true,
        if_false, hrun2 fuel h2, Option.map_some]
      rfl
    · rw [Bool.not_eq_true', hiff2, Quiet, and_iff_right (hiff1.mp rfl)]

/-- The generator before the `k`-th pass of a request. -/
def Apipa.before (start : Apipa) (k : Nat) : Apipa := Apipa.drawn^[k] start

/-- The candidate of the `k`-th pass. -/
def Apipa.candidate (start : Apipa) (k : Nat) : IPv4Addr := makeIP (start.before k).drawn

theorem candidate_succ (start : Apipa) (k : Nat) :
    start.drawn.candidate k = start.candidate (k + 1) := rfl

/-- The first pass whose phases are silent. -/
def FirstQuiet (env : Nat → ProbePhase × ProbePhase) (start : Apipa) (k : Nat) : Prop :=
  Quiet (env k) (start.candidate k) ∧ ∀ j < k, ¬ Quiet (env j) (start.candidate j)

/-- What the passes leave behind. -/
structure AttemptsDone (env : Nat → ProbePhase × ProbePhase) (start : Apipa) (left : Nat) (ok : Bool)
    (r : ApipaRun) : Prop where
  stopped : left = 0 ∨ serviceAfter r.calls = none
  failed : ok = false → ∀ j < left, ¬ Quiet (env j) (start.candidate j)
  found : ok = true → ∃ k < left, FirstQuiet env start k ∧ r.cfg.ipAddr = start.candidate k ∧
    r.cfg.netmask = apipaMask

theorem attempts_spec (env : Nat → ProbePhase × ProbePhase) (left : Nat) :
    ∀ k r, ∃ ok r' N, (∀ fuel, N < fuel → attempts fuel env left k r = some (ok, r')) ∧
      AttemptsDone (fun j => env (k + j)) r.inst left ok r' ∧ (left = 0 → r' = r) := by
  induction left with
  | zero =>
    intro k r
    refine ⟨false, r, 0, fun fuel _ => by cases fuel <;> rfl, ⟨Or.inl rfl, ?_, Bool.noConfusion⟩,
      fun _ => rfl⟩
    exact fun _ j hj => absurd hj (Nat.not_lt_zero j)
  | succ left ih =>
    intro k r
    obtain ⟨ok, r', N, hrun, hinst, hstop, hok, hcfg⟩ := attempt_spec (env k) r
    cases ok with
    | true =>
      refine ⟨true, r', N, ?_, ⟨Or.inr hstop, Bool.noConfusion, fun _ => ?_⟩,
        fun h => absurd h (Nat.succ_ne_zero left)⟩
      · intro fuel hlt
        simp only [attempts, hrun fuel hlt, Option.bind_some, if_true]
      · refine ⟨0, Nat.succ_pos left, ⟨hok.mp rfl, ?_⟩, hcfg rfl⟩
        exact fun j hj => absurd hj (Nat.not_lt_zero j)
    | false =>
      have hnoisy : ¬ Quiet (env k) (makeIP r.inst.drawn) := fun hq => by cases hok.mpr hq
      obtain ⟨ok', r'', N', hrun', hdone, hsame⟩ := ih (k + 1) r'
      have hcand (j : Nat) : r'.inst.candidate j = r.inst.candidate (j + 1) := by
        rw [hinst, candidate_succ]
      have hquiet (j : Nat) : Quiet (env (k + 1 + j)) (r'.inst.candidate j) ↔
          Quiet (env (k + (j + 1))) (r.inst.candidate (j + 1)) := by
        rw [hcand, Nat.add_assoc, Nat.add_comm 1 j]
      refine ⟨ok', r'', N + N', ?_, ⟨Or.inr ?_, ?_, ?_⟩, fun h => absurd h (Nat.succ_ne_zero left)⟩
      · intro fuel hlt
        simp only [attempts, hrun fuel (by omega), Option.bind_some, Bool.false_eq_true, if_false]
        exact hrun' fuel (by omega)
      · rcases hdone.stopped with h0 | h0
        · rw [hsame h0]
          exact hstop
        · exact h0
      · intro hfail j hj
        cases j with
        | zero => exact hnoisy
        | succ j => exact mt (hquiet j).mpr (hdone.failed hfail j (by omega))
      · intro hfound
        obtain ⟨j, hj, ⟨hq, hbefore⟩, hip, hmask⟩ := hdone.found hfound
        rw [hcand] at hip
        refine ⟨j + 1, by omega, ⟨(hquiet j).mp hq, ?_⟩, hip, hmask⟩
        intro i hi
        cases i with
        | zero => exact hnoisy
        | succ i => exact mt (hquiet i).mpr (hbefore i (by omega))

/-- What a request promises: it ends, with the service stopped. On success the caller's
configuration has a link-local address that no lookup of the two phases of one pass found, on
failure it is what it was. -/
def RequestOk (env : Nat → ProbePhase × ProbePhase) (inst : Apipa) (cfg : EthConfig)
    (repeats : Int16) : Prop :=
  ∃ res N, (∀ fuel, N < fuel → apipaRequestAddr fuel env inst cfg repeats = some res) ∧
    serviceAfter res.calls = none ∧
    (res.ok = true → ∃ (k : Nat) (ip : IPv4Addr), (k : Int) < repeats.toInt ∧ LinkLocal ip ∧ Quiet (env k) ip ∧
      res.cfg = cfg.setIp ip apipaMask) ∧
    (res.ok = false → res.cfg = cfg)

/-- The pass that succeeds does not start from a reserved seed. -/
def AvoidsReserved (env : Nat → ProbePhase × ProbePhase) (start : Apipa) (repeats : Int16) : Prop :=
  ∀ k : Nat, (k : Int) < repeats.toInt → FirstQuiet env start k → ¬ (start.before k).Reserved

theorem firstQuiet_unique {env : Nat → ProbePhase × ProbePhase} {start : Apipa} {j k : Nat}
    (hj : FirstQuiet env start j) (hk : FirstQuiet env start k) : j = k := by
  rcases Nat.lt_trichotomy j k with hlt | heq | hgt
  · exact absurd hj.1 (hk.2 j hlt)
  · exact heq
  · exact absurd hk.1 (hj.2 k hgt)

/-- What the request returns, once there is fuel for its loops. -/
theorem apipaRequestAddr_spec (env : Nat → ProbePhase × ProbePhase) (inst : Apipa)
    (cfg : EthConfig) (repeats : Int16) :
    ∃ ok r N, AttemptsDone env (inst.addMac cfg.ethMac) repeats.toInt.toNat ok r ∧
      serviceAfter r.calls = none ∧
      ∀ fuel, N < fuel → apipaRequestAddr fuel env inst cfg repeats =
        some ⟨ok, r.inst, if ok then cfg.setIp r.cfg.ipAddr r.cfg.netmask else cfg, r.calls⟩ := by
  obtain ⟨ok, r, N, hrun, hdone, hsame⟩ := attempts_spec env repeats.toInt.toNat 0
    ⟨inst.addMac cfg.ethMac, cfg.setDefaultRoute ipZero, []⟩
  simp only [Nat.zero_add] at hdone
  refine ⟨ok, r, N, hdone, ?_, ?_⟩
  · rcases hdone.stopped with h0 | h0
    · rw [hsame h0]
      rfl
    · exact h0
  · intro fuel hlt
    rw [apipaRequestAddr, hrun fuel hlt]
    rfl

theorem lt_repeats {repeats : Int16} {k : Nat} :
    k < repeats.toInt.toNat ↔ (k : Int) < repeats.toInt := by omega

theorem not_requestOk {env : Nat → ProbePhase × ProbePhase} {inst : Apipa} {cfg : EthConfig}
    {repeats : Int16} {k : Nat} (hk : (k : Int) < repeats.toInt)
    (hquiet : FirstQuiet env (inst.addMac cfg.ethMac) k)
    (hreserved : ((inst.addMac cfg.ethMac).before k).Reserved) :
    ¬ RequestOk env inst cfg repeats := by
  rintro ⟨res, N', hres', -, hsucc, -⟩
  obtain ⟨ok, r, N, hdone, -, hres⟩ := apipaRequestAddr_spec env inst cfg repeats
  have heq := (hres' (N + N' + 1) (by omega)).symm.trans (hres (N + N' + 1) (by omega))
  obtain rfl := Option.some.inj heq
  have hok : ok = true := by
    cases ok with
    | true => rfl
    | false => exact absurd hquiet.1 (hdone.failed rfl k (lt_repeats.mpr hk))
  obtain ⟨j, -, hfirst, hip, -⟩ := hdone.found hok
  obtain rfl := firstQuiet_unique hfirst hquiet
  obtain ⟨-, ip, -, hlocal, -, hcfg⟩ := hsucc hok
  simp only [hok, if_true] at hcfg
  have haddr : (inst.addMac cfg.ethMac).candidate j = ip := by
    rw [← hip]
    exact congrArg (fun c : EthConfig => c.ipAddr) hcfg
  rw [← haddr] at hlocal
  exact (linkLocal_makeIP _).mp hlocal hreserved

theorem requestOk_of_avoids {env : Nat → ProbePhase × ProbePhase} {inst : Apipa} {cfg : EthConfig}
    {repeats : Int16} (havoid : AvoidsReserved env (inst.addMac cfg.ethMac) repeats) :
    RequestOk env inst cfg repeats := by
  obtain ⟨ok, r, N, hdone, hstop, hres⟩ := apipaRequestAddr_spec env inst cfg repeats
  refine ⟨_, N, hres, hstop, ?_, ?_⟩
  · rintro rfl
    obtain ⟨k, hk, hfirst, hip, hmask⟩ := hdone.found rfl
    refine ⟨k, r.cfg.ipAddr, lt_repeats.mp hk, ?_, ?_, ?_⟩
    · rw [hip]
      exact (linkLocal_makeIP _).mpr (havoid k (lt_repeats.mp hk) hfirst)
    · rw [hip]
      exact hfirst.1
    · simp only [if_true, hmask]
  · rintro rfl
    rfl

/-- For every MAC address, seed, repeat count and pattern of ARP entries: the request keeps its
promise exactly when the pass that succeeds does not start from a seed that the generator takes to
169.254.255.x. -/
theorem apipaRequestAddr_iff (env : Nat → ProbePhase × ProbePhase) (inst : Apipa) (cfg : EthConfig)
    (repeats : Int16) :
    RequestOk env inst cfg repeats ↔ AvoidsReserved env (inst.addMac cfg.ethMac) repeats :=
  ⟨fun h _ hk hquiet hreserved => not_requestOk hk hquiet hreserved h, requestOk_of_avoids⟩

/-- A network without another host: 300 ms between two looks at the clock, an empty table. -/
def silentPhase : ProbePhase where
  now n := UInt32.ofNat (300 * n)
  arp _ := zeroedArp
  passes := by
    intro ms hms
    refine ⟨3, ?_⟩
    show ms < ((1200 : UInt32) - 0).toNat
    exact Nat.lt_of_le_of_lt hms (by decide)

/-- A board whose MAC address has the byte sum 166, with a fresh generator and no other host: the
address is 169.254.255.18. -/
theorem not_apipaRequestAddr : ¬ ∀ env inst cfg repeats, RequestOk env inst cfg repeats := by
  intro h
  have hseed : Apipa.initialized.addMac ⟨#v[0x02, 0, 0, 0, 0, 0xa4]⟩ = ⟨166⟩ := by decide
  have hquiet : FirstQuiet (fun _ => (silentPhase, silentPhase)) ⟨166⟩ 0 := by
    have hnone : hasArpInfo zeroedArp (Apipa.candidate ⟨166⟩ 0) = false := by decide +kernel
    exact ⟨⟨fun _ _ => hnone, fun _ _ => hnone⟩, fun j hj => absurd hj (Nat.not_lt_zero j)⟩
  refine not_requestOk (k := 0) ?_ ?_ ?_ (h (fun _ => (silentPhase, silentPhase)) .initialized
    { boardConfig with ethMac := ⟨#v[0x02, 0, 0, 0, 0, 0xa4]⟩ } 1)
  · decide
  · rw [hseed]
    exact hquiet
  · rw [hseed]
    exact Or.inl (by decide)

end MiMic.NetIf
