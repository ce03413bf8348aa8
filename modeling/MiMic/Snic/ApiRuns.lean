import MiMic.Snic.Api

/-!
# Successes behind their answers

When the signal is clear at the beginning of a call that does not clear it, and nothing reaches
the object but complete answers to the call that waits, every success is that of an answer which
came during the call.
-/
namespace MiMic.Snic

open Verif

/-- The answer that the waiting call may take: its command with the response bit, its sequence
number, and all its bytes. -/
def AnswersCurrent (w : Link) (k : Packet) : Prop :=
  ∃ c, (w.app = .waiting c ∧ w.api.signal = false ∨ w.app = .ready c ∧
      (w.api.signal = false ∨ c.clearsSignal = true)) ∧
    k.cmd = c.cmd ||| responseBit ∧ k.seq = w.api.lastSeq ∧
    (k.status = 0 → ∀ n, payloadLen k.cmd = some n → n ≤ k.payload.length) ∧
    ∀ i, w.table.id2Item k.seq = some i → w.table.Registered i

/-- A call that does not clear the signal finds it clear, and a packet is an indication, carries
a number that no item has, or is the answer to the call that waits. -/
def OnlyAnswers (p : Link × Heard) : LinkEvent → Prop
  | .call c => c.clearsSignal = true ∨ p.1.api.signal = false
  | .receive k => Link.isIndication k = true ∨ (∀ i, (p.1.table.items i).id ≠ k.seq) ∨
      AnswersCurrent p.1 k
  | .app => True
  | .rx => True

section

variable (p : Link × Heard)

def NoItem : Prop := ∀ j, ¬ p.1.table.Registered j

/-- The object stands in the slot of the call, and nothing else is registered. -/
structure Item : Prop where
  obj : (p.1.table.items p.2.slot).obj = some snicApi
  id : (p.1.table.items p.2.slot).id = p.2.seq
  alone : ∀ j, p.1.table.Registered j → j = p.2.slot

structure Hears (c : ApiCall) (k : Packet) : Prop where
  mem : k ∈ p.2.packets
  cmd : k.cmd = c.cmd ||| responseBit
  seq : k.seq = p.2.seq
  complete : k.status = 0 → ∀ n, payloadLen k.cmd = some n → n ≤ k.payload.length

/-- A status of success is that of an answer, and so are the bytes. -/
def Answered (c : ApiCall) (bytes : List UInt8) : Prop :=
  p.1.api.lastStatus = 0 → ∃ k ∈ p.2.packets, Answers c p.2.seq bytes k

def SlotLocked : Prop := (p.1.table.items p.2.slot).locked = true

/-- What the handler relies on while the call `c` is registered. -/
def RxOk (c : ApiCall) : Prop :=
  match p.1.rx with
  | .idle => True
  | .looked k i => i = p.2.slot ∧ Hears p c k ∧ SlotLocked p
  | .checking k => Hears p c k ∧ SlotLocked p
  | .storing k => Hears p c k ∧ p.1.api.lastStatus = k.status ∧ SlotLocked p
  | .signalling => Answered p c p.1.api.response ∧ SlotLocked p
  | .unlocking => SlotLocked p

/-- A signal that is set says that the answer has come. -/
def Fresh (c : ApiCall) : Prop :=
  p.1.api.signal = true →
    (p.1.rx = .idle ∨ p.1.rx = .unlocking) ∧ Answered p c p.1.api.response

/-- The call is registered and its number known. -/
structure Open (c : ApiCall) : Prop where
  item : Item p
  cmd : p.1.api.lastCmd = c.cmd
  seq : p.1.api.lastSeq = p.2.seq
  rx : RxOk p c

/-- The call has seen the signal. -/
structure Woken (c : ApiCall) : Prop where
  toOpen : Open p c
  signal : p.1.api.signal = true
  fresh : Fresh p c

def CallOk : Prop :=
  match p.1.app with
  | .idle => NoItem p ∧ p.1.rx = .idle
  | .calling c => NoItem p ∧ p.1.rx = .idle ∧ p.1.api.lastCmd = c.cmd ∧
      (c.clearsSignal = true ∨ p.1.api.signal = false)
  | .registered c i => i = p.2.slot ∧ Item p ∧ p.1.rx = .idle ∧ p.1.api.lastCmd = c.cmd ∧
      (c.clearsSignal = true ∨ p.1.api.signal = false)
  | .ready c => Open p c ∧ (c.clearsSignal = true ∨ Fresh p c)
  | .waiting c => Open p c ∧ Fresh p c
  | .seen c => Woken p c
  | .leaving c => Woken p c ∧ (c.readsFirst = true → p.1.taken = p.1.api.response)
  | .removing c i => i = p.2.slot ∧ Woken p c ∧
      (c.readsFirst = true → p.1.taken = p.1.api.response)
  | .returning c => NoItem p ∧ p.1.rx = .idle ∧ Answered p c (readBytes p.1 c)

structure LinkInv : Prop where
  good : p.2.good = true
  call : CallOk p

end

section

variable {w : Link} {b : Heard} {c : ApiCall}

/-- The handler does not rely on what only the call writes. -/
theorem Open.moved (h : Open (w, b) c) (signal : Bool) (app : AppPc) (taken : List UInt8) :
    Open ({ w with
      api := { w.api with signal := signal }
      app := app
      taken := taken }, b) c := by
  refine ⟨⟨h.item.obj, h.item.id, h.item.alone⟩, h.cmd, h.seq, ?_⟩
  have hrx := h.rx
  unfold RxOk at hrx ⊢
  cases hw : w.rx with
  | idle => trivial
  | looked k i =>
    simp only [hw] at hrx
    exact ⟨hrx.1, ⟨hrx.2.1.mem, hrx.2.1.cmd, hrx.2.1.seq, hrx.2.1.complete⟩, hrx.2.2⟩
  | checking k =>
    simp only [hw] at hrx
    exact ⟨⟨hrx.1.mem, hrx.1.cmd, hrx.1.seq, hrx.1.complete⟩, hrx.2⟩
  | storing k =>
    simp only [hw] at hrx
    exact ⟨⟨hrx.1.mem, hrx.1.cmd, hrx.1.seq, hrx.1.complete⟩, hrx.2⟩
  | signalling =>
    simp only [hw] at hrx
    exact hrx
  | unlocking =>
    simp only [hw] at hrx
    exact hrx

/-- The lock of the item keeps the call from leaving, so nothing is left of the handler. -/
theorem rx_idle_of_unlocked (h : Woken (w, b) c)
    (hlock : (w.table.items b.slot).locked = false) : w.rx = .idle := by
  rcases (h.fresh h.signal).1 with hidle | hun
  · exact hidle
  · have hrx := h.toOpen.rx
    have hrx' : w.rx = .unlocking := hun
    unfold RxOk at hrx
    simp only [hrx'] at hrx
    unfold SlotLocked at hrx
    rw [hlock] at hrx
    exact Bool.noConfusion hrx

theorem noItem_clear (h : Item (w, b)) : ∀ j, ¬ (w.table.clearItem b.slot).Registered j := by
  intro j hj
  unfold IdPtrTable.Registered at hj
  by_cases hjs : j = b.slot
  · rw [hjs, IdPtrTable.clearItem, IdPtrTable.set_self] at hj
    exact hj rfl
  · rw [IdPtrTable.clearItem, IdPtrTable.set_other hjs] at hj
    exact hjs (h.alone j hj)

/-- The call takes its registration back. -/
theorem callOk_returning (h : Woken (w, b) c) (htaken : c.readsFirst = true → w.taken = w.api.response)
    (hlock : (w.table.items b.slot).locked = false) :
    CallOk ({ w with table := w.table.clearItem b.slot, app := .returning c }, b) := by
  have hidle := rx_idle_of_unlocked h hlock
  refine ⟨noItem_clear h.toOpen.item, hidle, ?_⟩
  have hans := (h.fresh h.signal).2
  have hbytes : readBytes w c = w.api.response := by
    unfold readBytes
    split
    · next hr => exact htaken hr
    · rfl
  show Answered (w, b) c (readBytes w c)
  rw [hbytes]
  exact hans

theorem slot_of_leaving (h : Item (w, b)) : w.table.obj2Item (some snicApi) = some b.slot := by
  cases hfind : w.table.obj2Item (some snicApi) with
  | none => exact absurd h.obj (IdPtrTable.obj2Item_none.mp hfind b.slot)
  | some i =>
    have hi : w.table.Registered i := by
      unfold IdPtrTable.Registered
      rw [IdPtrTable.obj2Item_some hfind]
      simp
    rw [h.alone i hi]

/-- The caller goes on. -/
theorem inv_app {w' : Link} (h : LinkInv (w, b)) (hs : w.appStep = some w') :
    LinkInv (w', b.note w .app) := by
  have hcall := h.call
  have hgood : b.good = true := h.good
  unfold CallOk at hcall
  unfold Link.appStep at hs
  cases happ : w.app with
  | idle =>
    rw [happ] at hs
    cases hs
  | calling c =>
    simp only [happ] at hs hcall
    obtain ⟨i, hfree, rfl⟩ := Option.map_eq_some_iff.mp hs
    obtain ⟨hno, hrx, hcmd, hsig⟩ := hcall
    have hnote : b.note w .app = { b with slot := i, seq := w.table.nextId } := by
      simp only [Heard.note, happ, hfree]
    rw [hnote]
    refine ⟨hgood, rfl, ⟨?_, ?_, ?_⟩, hrx, hcmd, hsig⟩
    · show ((w.table.addItem snicApi i).items i).obj = _
      rw [IdPtrTable.addItem_self]
    · show ((w.table.addItem snicApi i).items i).id = _
      rw [IdPtrTable.addItem_self]
    · intro j hj
      by_contra hji
      apply hno j
      unfold IdPtrTable.Registered at hj ⊢
      change ((w.table.addItem snicApi i).items j).obj ≠ none at hj
      rwa [IdPtrTable.addItem_other hji] at hj
  | registered c i =>
    simp only [happ] at hs hcall
    obtain rfl := Option.some.inj hs
    obtain ⟨rfl, hitem, hrx, hcmd, hsig⟩ := hcall
    have hnote : b.note w .app = b := by simp only [Heard.note, happ]
    rw [hnote]
    refine ⟨hgood, ⟨⟨hitem.obj, hitem.id, hitem.alone⟩, hcmd, hitem.id, ?_⟩, ?_⟩
    · unfold RxOk
      simp only [show w.rx = .idle from hrx]
    · exact hsig.imp_right fun hf ht => absurd (hf.symm.trans ht) Bool.false_ne_true
  | ready c =>
    simp only [happ] at hs hcall
    obtain rfl := Option.some.inj hs
    obtain ⟨hopen, hfresh⟩ := hcall
    have hnote : b.note w .app = b := by simp only [Heard.note, happ]
    rw [hnote]
    refine ⟨hgood, hopen.moved _ _ _, ?_⟩
    unfold Fresh
    intro hsig
    cases hc : c.clearsSignal with
    | true => simp [hc] at hsig
    | false =>
      rw [hc] at hfresh
      simp only [hc, Bool.false_eq_true, if_false] at hsig
      exact (hfresh.resolve_left Bool.false_ne_true) hsig
  | waiting c =>
    simp only [happ] at hs hcall
    obtain rfl := Option.some.inj hs
    obtain ⟨hopen, hfresh⟩ := hcall
    have hnote : b.note w .app = b := by simp only [Heard.note, happ]
    rw [hnote]
    have hopen' : ∀ pc, Open ({ w with app := pc }, b) c := fun pc =>
      hopen.moved w.api.signal pc w.taken
    cases hsig : w.api.signal with
    | true => exact ⟨hgood, ⟨hopen' _, hsig, hfresh⟩⟩
    | false => exact ⟨hgood, hopen' _, hfresh⟩
  | seen c =>
    simp only [happ] at hs hcall
    obtain rfl := Option.some.inj hs
    have hnote : b.note w .app = b := by simp only [Heard.note, happ]
    rw [hnote]
    refine ⟨hgood, ⟨hcall.toOpen.moved w.api.signal _ _, hcall.signal, hcall.fresh⟩, ?_⟩
    intro hr
    show (if c.readsFirst then w.api.response else w.taken) = w.api.response
    rw [hr, if_pos rfl]
  | leaving c =>
    simp only [happ] at hs hcall
    obtain ⟨hwoken, htaken⟩ := hcall
    rw [slot_of_leaving hwoken.toOpen.item, Option.map_some] at hs
    obtain rfl := Option.some.inj hs
    have hnote : b.note w .app = b := by simp only [Heard.note, happ]
    rw [hnote]
    cases hlock : (w.table.items b.slot).locked with
    | true =>
      exact ⟨hgood, rfl, ⟨hwoken.toOpen.moved w.api.signal _ w.taken, hwoken.signal,
        hwoken.fresh⟩, htaken⟩
    | false => exact ⟨hgood, callOk_returning hwoken htaken hlock⟩
  | removing c i =>
    simp only [happ] at hs hcall
    obtain ⟨rfl, hwoken, htaken⟩ := hcall
    have hnote : b.note w .app = b := by simp only [Heard.note, happ]
    rw [hnote]
    cases hlock : (w.table.items b.slot).locked with
    | true =>
      simp only [hlock, if_true] at hs
      obtain rfl := Option.some.inj hs
      refine ⟨hgood, ?_⟩
      unfold CallOk
      simp only [happ]
      exact ⟨trivial, hwoken, htaken⟩
    | false =>
      simp only [hlock, Bool.false_eq_true, if_false] at hs
      obtain rfl := Option.some.inj hs
      exact ⟨hgood, callOk_returning hwoken htaken hlock⟩
  | returning c =>
    simp only [happ] at hs hcall
    obtain rfl := Option.some.inj hs
    obtain ⟨hno, hrx, hans⟩ := hcall
    refine ⟨?_, hno, hrx⟩
    simp only [Heard.note, happ, hgood, Bool.true_and, Bool.or_eq_true, decide_eq_true_eq,
      List.any_eq_true]
    by_cases hstatus : w.api.lastStatus = 0
    · exact Or.inr (hans hstatus)
    · exact Or.inl hstatus

/-- While the handler is at work the call has not yet seen a signal. -/
theorem phase_of_busy (h : LinkInv (w, b)) (hrx : w.rx ≠ .idle ∧ w.rx ≠ .unlocking) :
    ∃ c, Open (w, b) c ∧ (w.app = .ready c ∧ (c.clearsSignal = true ∨ w.api.signal = false) ∨
      w.app = .waiting c ∧ w.api.signal = false) := by
  have hcall := h.call
  have hquiet : ∀ {c}, Fresh (w, b) c → w.api.signal = false := by
    intro c hf
    cases hsig : w.api.signal with
    | false => rfl
    | true =>
      rcases (hf hsig).1 with hi | hu
      · exact absurd hi hrx.1
      · exact absurd hu hrx.2
  have hwoken : ∀ {c}, ¬ Woken (w, b) c := by
    intro c hw
    have hf := hquiet hw.fresh
    rw [hw.signal] at hf
    exact Bool.noConfusion hf
  unfold CallOk at hcall
  cases happ : w.app with
  | idle =>
    simp only [happ] at hcall
    exact absurd hcall.2 hrx.1
  | calling c =>
    simp only [happ] at hcall
    exact absurd hcall.2.1 hrx.1
  | registered c i =>
    simp only [happ] at hcall
    exact absurd hcall.2.2.1 hrx.1
  | ready c =>
    simp only [happ] at hcall
    exact ⟨c, hcall.1, Or.inl ⟨rfl, hcall.2.imp_right hquiet⟩⟩
  | waiting c =>
    simp only [happ] at hcall
    exact ⟨c, hcall.1, Or.inr ⟨rfl, hquiet hcall.2⟩⟩
  | seen c =>
    simp only [happ] at hcall
    exact absurd hcall hwoken
  | leaving c =>
    simp only [happ] at hcall
    exact absurd hcall.1 hwoken
  | removing c i =>
    simp only [happ] at hcall
    exact absurd hcall.2.1 hwoken
  | returning c =>
    simp only [happ] at hcall
    exact absurd hcall.2.1 hrx.1

/-- The phases of a call that waits. -/
theorem callOk_waits {w' : Link} (hopen : Open (w', b) c) (hfresh : Fresh (w', b) c ∨
    w'.app = .ready c ∧ c.clearsSignal = true) (happ : w'.app = .ready c ∨ w'.app = .waiting c) :
    CallOk (w', b) := by
  unfold CallOk
  rcases happ with happ | happ
  · simp only [happ]
    rcases hfresh with hf | ⟨-, hc⟩
    · exact ⟨hopen, Or.inr hf⟩
    · exact ⟨hopen, Or.inl hc⟩
  · simp only [happ]
    rcases hfresh with hf | ⟨hr, -⟩
    · exact ⟨hopen, hf⟩
    · rw [happ] at hr
      cases hr

theorem answer_cmd (c : ApiCall) : (c.cmd ||| responseBit) &&& 0x7f = c.cmd := by cases c <;> rfl

theorem item_locked {t : IdPtrTable} {i : Slot} (locked : Bool) (j : Slot) :
    ((t.set i { t.items i with locked := locked }).items j).obj = (t.items j).obj ∧
      ((t.set i { t.items i with locked := locked }).items j).id = (t.items j).id := by
  by_cases hji : j = i
  · rw [hji, IdPtrTable.set_self]
    exact ⟨rfl, rfl⟩
  · rw [IdPtrTable.set_other hji]
    exact ⟨rfl, rfl⟩

/-- The lock of an item is no part of its registration. -/
theorem Item.locked (h : Item (w, b)) (locked : Bool) {w' : Link} {b' : Heard}
    (htable : w'.table = w.table.set b.slot { w.table.items b.slot with locked := locked })
    (hslot : b'.slot = b.slot) (hseq : b'.seq = b.seq) : Item (w', b') := by
  refine ⟨?_, ?_, ?_⟩
  · show (w'.table.items b'.slot).obj = _
    rw [htable, hslot, (item_locked locked b.slot).1]
    exact h.obj
  · show (w'.table.items b'.slot).id = b'.seq
    rw [htable, hslot, hseq, (item_locked locked b.slot).2]
    exact h.id
  · intro j hj
    show j = b'.slot
    rw [hslot]
    apply h.alone j
    unfold IdPtrTable.Registered at hj ⊢
    change (w'.table.items j).obj ≠ none at hj
    rwa [htable, (item_locked locked j).1] at hj

/-- The handler goes on with an answer. -/
theorem inv_rx_busy {w' : Link} (h : LinkInv (w, b)) (hrx : w.rx ≠ .idle ∧ w.rx ≠ .unlocking)
    (hs : w.rxStep = some w') : LinkInv (w', b) := by
  obtain ⟨c, hopen, hphase⟩ := phase_of_busy h hrx
  have hitem := hopen.item
  have happ : w.app = .ready c ∨ w.app = .waiting c := hphase.imp And.left And.left
  have hsig : w.api.signal = false ∨ w.app = .ready c ∧ c.clearsSignal = true := by
    rcases hphase with ⟨hr, hc | hf⟩ | ⟨-, hf⟩
    · exact Or.inr ⟨hr, hc⟩
    · exact Or.inl hf
    · exact Or.inl hf
  -- without a signal nothing is claimed of the answer
  have hclear : ∀ w'' : Link, w''.api.signal = w.api.signal → w''.app = w.app →
      Fresh (w'', b) c ∨ w''.app = .ready c ∧ c.clearsSignal = true := by
    intro w'' hs'' ha''
    rw [ha'']
    refine hsig.imp_left fun hf ht => ?_
    change w''.api.signal = true at ht
    rw [hs'', hf] at ht
    exact Bool.noConfusion ht
  have hok := hopen.rx
  unfold RxOk at hok
  unfold Link.rxStep at hs
  cases hw : w.rx with
  | idle => exact absurd hw hrx.1
  | unlocking => exact absurd hw hrx.2
  | looked k i =>
    simp only [hw] at hs hok
    obtain ⟨rfl, hears, hlock⟩ := hok
    rw [show (w.table.items b.slot).obj = some snicApi from hitem.obj] at hs
    obtain rfl := Option.some.inj hs
    refine ⟨h.good, callOk_waits ⟨⟨hitem.obj, hitem.id, hitem.alone⟩, hopen.cmd, hopen.seq, ?_⟩
      (hclear _ rfl rfl) happ⟩
    exact ⟨⟨hears.mem, hears.cmd, hears.seq, hears.complete⟩, hlock⟩
  | checking k =>
    simp only [hw] at hs hok
    obtain ⟨hears, hlock⟩ := hok
    have hno : ¬ (w.api.lastSeq ≠ k.seq ∨ w.api.lastCmd ≠ k.cmd &&& 0x7f) := by
      rw [hears.seq, hears.cmd, answer_cmd]
      intro hor
      rcases hor with hne | hne
      · exact hne hopen.seq
      · exact hne hopen.cmd
    rw [if_neg hno] at hs
    obtain rfl := Option.some.inj hs
    refine ⟨h.good, callOk_waits ⟨⟨hitem.obj, hitem.id, hitem.alone⟩, hopen.cmd, hopen.seq, ?_⟩
      (hclear _ rfl rfl) happ⟩
    exact ⟨⟨hears.mem, hears.cmd, hears.seq, hears.complete⟩, rfl, hlock⟩
  | storing k =>
    simp only [hw] at hs hok
    obtain ⟨hears, hstatus, hlock⟩ := hok
    obtain ⟨n, hn⟩ := payloadLen_cmd c
    rw [← hears.cmd] at hn
    have hopen' : ∀ api : SnicApi, api.lastCmd = w.api.lastCmd → api.lastSeq = w.api.lastSeq →
        Answered ({ w with api := api, rx := .signalling }, b) c api.response →
        Open ({ w with api := api, rx := .signalling }, b) c := by
      intro api hcmd hseq hans
      exact ⟨⟨hitem.obj, hitem.id, hitem.alone⟩, hcmd.trans hopen.cmd, hseq.trans hopen.seq,
        hans, hlock⟩
    rw [hn] at hs
    simp only at hs
    by_cases hgo : w.api.lastStatus = 0 ∧ n ≤ k.payload.length
    · rw [if_pos hgo] at hs
      obtain rfl := Option.some.inj hs
      refine ⟨h.good, callOk_waits (hopen' _ rfl rfl ?_) (hclear _ rfl rfl) happ⟩
      intro hzero
      refine ⟨k, hears.mem, hears.cmd, hears.seq, hstatus.symm.trans hgo.1, ?_⟩
      intro m hm
      rw [hn] at hm
      obtain rfl := Option.some.inj hm
      refine ⟨hgo.2, ?_⟩
      show (k.payload.take n).take n = _
      rw [List.take_take, Nat.min_self]
    · rw [if_neg hgo] at hs
      obtain rfl := Option.some.inj hs
      refine ⟨h.good, callOk_waits (hopen' w.api rfl rfl ?_) (hclear _ rfl rfl) happ⟩
      intro hzero
      have hz : w.api.lastStatus = 0 := hzero
      exact absurd ⟨hz, hears.complete (hstatus.symm.trans hz) n hn⟩ hgo
  | signalling =>
    simp only [hw] at hs hok
    obtain ⟨hans, hlock⟩ := hok
    obtain rfl := Option.some.inj hs
    refine ⟨h.good, callOk_waits ⟨⟨hitem.obj, hitem.id, hitem.alone⟩, hopen.cmd, hopen.seq, hlock⟩
      (Or.inl fun _ => ⟨Or.inr rfl, hans⟩) happ⟩

/-- A step that leaves the phase of the call, and what each phase relies on. -/
theorem CallOk.map {p q : Link × Heard} (h : CallOk p) (happ : q.1.app = p.1.app)
    (hapi : q.1.api = p.1.api) (htaken : q.1.taken = p.1.taken) (hslot : q.2.slot = p.2.slot)
    (hquiet : p.1.rx = .idle → (NoItem p → NoItem q) ∧ (Item p → Item q) ∧ q.1.rx = .idle)
    (hopen : ∀ c, Open p c → Open q c) (hfresh : ∀ c, Fresh p c → Fresh q c)
    (hans : ∀ c bytes, Answered p c bytes → Answered q c bytes) : CallOk q := by
  have hwoken : ∀ c, Woken p c → Woken q c := by
    intro c hw
    exact ⟨hopen c hw.toOpen, hapi ▸ hw.signal, hfresh c hw.fresh⟩
  have hread : ∀ c, readBytes q.1 c = readBytes p.1 c := by
    intro c
    rw [readBytes, readBytes, htaken, hapi]
  unfold CallOk at h ⊢
  rw [happ]
  cases hp : p.1.app with
  | idle =>
    simp only [hp] at h
    obtain ⟨hno, -, hrx⟩ := hquiet h.2
    exact ⟨hno h.1, hrx⟩
  | calling c =>
    simp only [hp] at h
    obtain ⟨hno, -, hrx⟩ := hquiet h.2.1
    simp only [hapi]
    exact ⟨hno h.1, hrx, h.2.2⟩
  | registered c i =>
    simp only [hp] at h
    obtain ⟨-, hitem, hrx⟩ := hquiet h.2.2.1
    simp only [hapi, hslot]
    exact ⟨h.1, hitem h.2.1, hrx, h.2.2.2⟩
  | ready c =>
    simp only [hp] at h
    exact ⟨hopen c h.1, h.2.imp_right (hfresh c)⟩
  | waiting c =>
    simp only [hp] at h
    exact ⟨hopen c h.1, hfresh c h.2⟩
  | seen c =>
    simp only [hp] at h
    exact hwoken c h
  | leaving c =>
    simp only [hp] at h
    simp only [htaken, hapi]
    exact ⟨hwoken c h.1, h.2⟩
  | removing c i =>
    simp only [hp] at h
    simp only [htaken, hapi, hslot]
    exact ⟨h.1, hwoken c h.2.1, h.2.2⟩
  | returning c =>
    simp only [hp] at h
    obtain ⟨hno, -, hrx⟩ := hquiet h.2.1
    simp only [hread]
    exact ⟨hno h.1, hrx, hans c _ h.2.2⟩

/-- The handler gives the item free again. -/
theorem inv_rx_unlock {w' : Link} (h : LinkInv (w, b)) (hrx : w.rx = .unlocking)
    (hs : w.rxStep = some w') : LinkInv (w', b) := by
  unfold Link.rxStep at hs
  rw [hrx] at hs
  obtain rfl := Option.some.inj hs
  have hopen : ∀ c, Open (w, b) c →
      Open ({ w with table := w.table.unLockPtr snicApi, rx := .idle }, b) c := by
    intro c ho
    have htable : w.table.unLockPtr snicApi = w.table.unlockItem b.slot := by
      rw [IdPtrTable.unLockPtr, slot_of_leaving ho.item]
    exact ⟨ho.item.locked false htable rfl rfl, ho.cmd, ho.seq, trivial⟩
  refine ⟨h.good, h.call.map rfl rfl rfl rfl ?_ hopen ?_ fun c bytes ha => ha⟩
  · intro hidle
    change w.rx = .idle at hidle
    rw [hrx] at hidle
    cases hidle
  · exact fun c hf hsig => ⟨Or.inl rfl, (hf hsig).2⟩

theorem inv_rx {w' : Link} (h : LinkInv (w, b)) (hs : w.rxStep = some w') : LinkInv (w', b) := by
  by_cases hidle : w.rx = .idle
  · unfold Link.rxStep at hs
    rw [hidle] at hs
    cases hs
  · by_cases hun : w.rx = .unlocking
    · exact inv_rx_unlock h hun hs
    · exact inv_rx_busy h ⟨hidle, hun⟩ hs

/-- What a call has heard is only added to. -/
theorem Answered.mono {p q : Link × Heard} {bytes : List UInt8} (h : Answered p c bytes)
    (hstatus : q.1.api.lastStatus = p.1.api.lastStatus) (hseq : q.2.seq = p.2.seq)
    (hmem : ∀ k ∈ p.2.packets, k ∈ q.2.packets) : Answered q c bytes := by
  intro hz
  rw [hstatus] at hz
  obtain ⟨k, hk, hans⟩ := h hz
  exact ⟨k, hmem k hk, hseq ▸ hans⟩

/-- A packet that does not concern the object. -/
theorem inv_heard (h : LinkInv (w, b)) (k : Packet) :
    LinkInv (w, { b with packets := b.packets ++ [k] }) := by
  have hmem : ∀ k' ∈ b.packets, k' ∈ b.packets ++ [k] := fun k' hk' => List.mem_append_left _ hk'
  have hans : ∀ c bytes, Answered (w, b) c bytes →
      Answered (w, { b with packets := b.packets ++ [k] }) c bytes :=
    fun c bytes ha => ha.mono rfl rfl hmem
  have hopen : ∀ c, Open (w, b) c → Open (w, { b with packets := b.packets ++ [k] }) c := by
    intro c ho
    refine ⟨⟨ho.item.obj, ho.item.id, ho.item.alone⟩, ho.cmd, ho.seq, ?_⟩
    have hrx := ho.rx
    unfold RxOk at hrx ⊢
    cases hw : w.rx with
    | idle => trivial
    | looked k' i =>
      simp only [hw] at hrx
      exact ⟨hrx.1, ⟨hmem _ hrx.2.1.mem, hrx.2.1.cmd, hrx.2.1.seq, hrx.2.1.complete⟩, hrx.2.2⟩
    | checking k' =>
      simp only [hw] at hrx
      exact ⟨⟨hmem _ hrx.1.mem, hrx.1.cmd, hrx.1.seq, hrx.1.complete⟩, hrx.2⟩
    | storing k' =>
      simp only [hw] at hrx
      exact ⟨⟨hmem _ hrx.1.mem, hrx.1.cmd, hrx.1.seq, hrx.1.complete⟩, hrx.2⟩
    | signalling =>
      simp only [hw] at hrx
      exact ⟨hans _ _ hrx.1, hrx.2⟩
    | unlocking =>
      simp only [hw] at hrx
      exact hrx
  refine ⟨h.good, h.call.map rfl rfl rfl rfl ?_ hopen ?_ hans⟩
  · exact fun hidle => ⟨id, fun hi => ⟨hi.obj, hi.id, hi.alone⟩, hidle⟩
  · exact fun c hf hsig => ⟨(hf hsig).1, hans _ _ (hf hsig).2⟩

/-- The answer to the call that waits. -/
theorem inv_answer (h : LinkInv (w, b)) {k : Packet} (hk : AnswersCurrent w k)
    {i : Slot} (hfind : w.table.id2Item k.seq = some i) :
    LinkInv ({ w with table := w.table.lockItem i, rx := .looked k i },
      { b with packets := b.packets ++ [k] }) := by
  obtain ⟨c, hphase, hcmd, hseq, hcomplete, hreg⟩ := hk
  have hcall := h.call
  have hopen : Open (w, b) c := by
    unfold CallOk at hcall
    rcases hphase with ⟨happ, -⟩ | ⟨happ, -⟩
    · simp only [happ] at hcall
      exact hcall.1
    · simp only [happ] at hcall
      exact hcall.1
  obtain rfl : i = b.slot := hopen.item.alone i (hreg i hfind)
  have hopen' : Open ({ w with table := w.table.lockItem b.slot, rx := .looked k b.slot },
      { b with packets := b.packets ++ [k] }) c := by
    refine ⟨hopen.item.locked true rfl rfl rfl, hopen.cmd, hopen.seq, rfl, ?_, ?_⟩
    · exact ⟨List.mem_append_right _ (List.mem_singleton_self k), hcmd, hseq.trans hopen.seq,
        hcomplete⟩
    · show ((w.table.lockItem b.slot).items b.slot).locked = true
      rw [IdPtrTable.lockItem, IdPtrTable.set_self]
  have hsig : w.api.signal = false → Fresh ({ w with
      table := w.table.lockItem b.slot
      rx := .looked k b.slot }, { b with packets := b.packets ++ [k] }) c :=
    fun hf ht => absurd (hf.symm.trans ht) Bool.false_ne_true
  refine ⟨h.good, callOk_waits hopen' ?_ ?_⟩
  · rcases hphase with ⟨-, hf⟩ | ⟨happ, hf | hc⟩
    · exact Or.inl (hsig hf)
    · exact Or.inl (hsig hf)
    · exact Or.inr ⟨happ, hc⟩
  · exact hphase.elim (fun hp => Or.inr hp.1) (fun hp => Or.inl hp.1)

theorem inv_receive {w' : Link} {k : Packet} (h : LinkInv (w, b))
    (hok : OnlyAnswers (w, b) (.receive k)) (hs : w.step (.receive k) = some w') :
    LinkInv (w', b.note w (.receive k)) := by
  have hnote : b.note w (.receive k) = { b with packets := b.packets ++ [k] } := rfl
  rw [hnote]
  simp only [Link.step] at hs
  split at hs
  · cases hind : Link.isIndication k with
    | true =>
      rw [hind, if_pos rfl] at hs
      obtain rfl := Option.some.inj hs
      exact inv_heard h k
    | false =>
      rw [hind, if_neg Bool.false_ne_true] at hs
      cases hfind : w.table.id2Item k.seq with
      | none =>
        rw [hfind] at hs
        obtain rfl := Option.some.inj hs
        exact inv_heard h k
      | some i =>
        rw [hfind] at hs
        obtain rfl := Option.some.inj hs
        rcases hok with hi | hnone | hk
        · rw [hind] at hi
          exact absurd hi Bool.false_ne_true
        · exact absurd (IdPtrTable.id2Item_some hfind) (hnone i)
        · exact inv_answer h hk hfind
  · cases hs

theorem inv_linkStep {w' : Link} {e : LinkEvent} (h : LinkInv (w, b)) (hok : OnlyAnswers (w, b) e)
    (hs : w.step e = some w') : LinkInv (w', b.note w e) := by
  cases e with
  | call c =>
    simp only [Link.step] at hs
    split at hs
    · next happ =>
      obtain rfl := Option.some.inj hs
      have hcall := h.call
      unfold CallOk at hcall
      simp only [happ] at hcall
      exact ⟨h.good, hcall.1, hcall.2, rfl, hok⟩
    · cases hs
  | app => exact inv_app h hs
  | receive k => exact inv_receive h hok hs
  | rx => exact inv_rx h hs

end

theorem linkInv_reaches {p : Link × Heard} (h : heardLink.Reaches OnlyAnswers p) : LinkInv p := by
  refine h.invariant ?_ ?_
  · intro p hp
    obtain ⟨⟨htable, happ, hrx⟩, hheard⟩ := hp
    refine ⟨by rw [hheard], ?_⟩
    unfold CallOk
    simp only [happ]
    refine ⟨?_, hrx⟩
    intro j hj
    rw [htable] at hj
    exact hj rfl
  · intro p e q hinv hok hs
    obtain ⟨hs', hheard⟩ := System.observe_step.mp
      (show heardLink.step (p.1, p.2) e = some (q.1, q.2) from hs)
    have hq := inv_linkStep hinv hok hs'
    rw [← hheard] at hq
    exact hq

/-- In every run of calls and packets that meets the condition, every success has its answer: the
call's own command and number, received during the call, with the status and the bytes used. -/
theorem calls_answered {p : Link × Heard} (h : heardLink.Reaches OnlyAnswers p) :
    p.2.good = true := (linkInv_reaches h).good

/-- The object and the table before the first call. -/
def bootedLink : Link × Heard :=
  (⟨.initialized, ⟨false, 0, 0, 0, []⟩, .idle, .idle, []⟩, ⟨0, 0, [], true⟩)

theorem bootedLink_init : heardLink.init bootedLink := ⟨⟨rfl, rfl, rfl⟩, rfl⟩

/-- `OnlyAnswers` for a replay, with answers that come to a waiting call only. -/
def onlyAnswers (p : Link × Heard) : LinkEvent → Bool
  | .call c => c.clearsSignal || !p.1.api.signal
  | .receive k =>
      match p.1.app with
      | .waiting c => !p.1.api.signal && decide (k.cmd = c.cmd ||| responseBit) &&
          decide (k.seq = p.1.api.lastSeq) &&
          decide (∀ n ∈ payloadLen k.cmd, n ≤ k.payload.length) &&
          decide (∀ i ∈ p.1.table.id2Item k.seq, p.1.table.Registered i)
      | _ => false
  | .app => true
  | .rx => true

theorem onlyAnswers_sound (p : Link × Heard) (e : LinkEvent) (h : onlyAnswers p e = true) :
    OnlyAnswers p e := by
  cases e with
  | call c =>
    simp only [onlyAnswers, Bool.or_eq_true, Bool.not_eq_true'] at h
    exact h
  | app => trivial
  | rx => trivial
  | receive k =>
    simp only [onlyAnswers] at h
    split at h
    · next c happ =>
      simp only [Bool.and_eq_true, Bool.not_eq_true', decide_eq_true_eq] at h
      obtain ⟨⟨⟨⟨hsig, hcmd⟩, hseq⟩, hlen⟩, hreg⟩ := h
      exact Or.inr (Or.inr ⟨c, Or.inl ⟨happ, hsig⟩, hcmd, hseq, fun _ n hn => hlen n hn,
        fun i hi => hreg i hi⟩)
    · exact absurd h Bool.false_ne_true

/-- A call that creates a socket, and its answer. -/
def createdSocket : List LinkEvent :=
  [.call .createTcpSocket, .app, .app, .app, .receive ⟨0x90, 1, 0, [5]⟩, .rx, .rx, .rx, .rx, .rx,
    .app, .app, .app, .app]

theorem calls_answered_socket :
    ∃ p, heardLink.Reaches OnlyAnswers p ∧ p.1.taken = [5] ∧ p.2.good = true := by
  have hrun := System.exists_of_runChecked onlyAnswers_sound bootedLink_init
    (show (heardLink.runChecked onlyAnswers bootedLink createdSocket).any
      (fun p => decide (p.1.taken = [5])) = true by decide +kernel)
  obtain ⟨p, hp, htaken⟩ := hrun
  exact ⟨p, hp, of_decide_eq_true htaken, calls_answered hp⟩

/-- Behind a call that has succeeded, `setSocketOption` succeeds without any packet, and a call
that clears the signal succeeds by a packet with another command. -/
theorem not_calls_answered :
    (∃ p, heardLink.Reaches System.anyStep p ∧
      decide (p.2.good = false ∧ p.2.packets = []) = true) ∧
    ∃ p, heardLink.Reaches System.anyStep p ∧
      decide (p.2.good = false ∧ p.2.packets = [⟨0x81, 2, 1, []⟩]) = true := by
  constructor
  · exact System.exists_of_run bootedLink_init (show (heardLink.run bootedLink (createdSocket ++
      [.call .setSocketOption, .app, .app, .app, .app, .app, .app, .app])).any
        (fun p => decide (p.2.good = false ∧ p.2.packets = [])) = true by decide +kernel)
  · exact System.exists_of_run bootedLink_init (show (heardLink.run bootedLink (createdSocket ++
      [.call .closeSocket, .app, .app, .app, .receive ⟨0x81, 2, 1, []⟩, .rx, .rx, .rx, .rx,
        .app, .app, .app, .app])).any
        (fun p => decide (p.2.good = false ∧ p.2.packets = [⟨0x81, 2, 1, []⟩])) = true
          by decide +kernel)

end MiMic.Snic
