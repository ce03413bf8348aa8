import MiMic.Lib.System
import MiMic.NetIf.Tables

/-!
# The listen queue by age

A free slot is told by its content, and the queue keeps only a write position. From that
position on the occupied slots stand in the order their SYNs arrived, so the slot at the
write position is the oldest one when it is occupied. `getLastIndex` begins one slot behind
it and comes to it last.
-/
namespace MiMic.NetIf

open Verif MiMic.Tcp

/-- A SYN and the slot it was put in. -/
abbrev Arrival := Fin numberOfQ × TcpSocketSynParam

inductive QueueAct where
  | add (item : TcpSocketSynParam)
  | getLastIndex
  | remove (i : Fin numberOfQ)

/-- `synPacket` adds no SYN from port zero. -/
def queueStep (q : ListenQ) : QueueAct → Option ListenQ
  | .add item => if item.rport = 0 then none else some (q.add item)
  | .getLastIndex => some q
  | .remove i => some (q.remove i)

def queueSystem : System ListenQ QueueAct where
  init q := ∃ q₀ : ListenQ, q = q₀.init
  step := queueStep

/-- The SYNs that were taken and not removed yet, oldest first. -/
def noteArrival (arrivals : List Arrival) (q : ListenQ) (a : QueueAct) (_ : ListenQ) :
    List Arrival :=
  match a with
  | .add item => if q.isFree then arrivals ++ [(q.wp, item)] else arrivals
  | .getLastIndex => arrivals
  | .remove i => arrivals.filter fun entry => entry.1 != i

def agedQueue : System (ListenQ × List Arrival) QueueAct := queueSystem.observe [] noteArrival

/-- The SYN is kept, in a slot that was free. -/
def ListenQ.Takes (q : ListenQ) (item : TcpSocketSynParam) : Prop :=
  ∃ t : Fin numberOfQ, q.item[t].rport = 0 ∧ (q.add item).item = q.item.set t item

def ListenQ.ReturnsOldest (q : ListenQ) (arrivals : List Arrival) : Prop :=
  q.getLastIndex = arrivals.head?.map Prod.fst

def ListenQ.TakesIffFree (q : ListenQ) : Prop :=
  ∀ item : TcpSocketSynParam, item.rport ≠ 0 →
    (q.Takes item ↔ ∃ t : Fin numberOfQ, q.item[t].rport = 0)

/-- The queue and what has arrived, as a FIFO has them. -/
structure IsFifo (q : ListenQ) (arrivals : List Arrival) : Prop where
  holds : ∀ entry : Arrival, entry ∈ arrivals ↔ entry.2 = q.item[entry.1] ∧ entry.2.rport ≠ 0
  oldest : q.ReturnsOldest arrivals
  adds : q.TakesIffFree
  frees : ∀ i : Fin numberOfQ, (q.remove i).item[i].rport = 0

def ListenQ.occupied (q : ListenQ) (t : Fin numberOfQ) : Bool := q.item[t].rport != 0

def slotsFrom (wp : Fin numberOfQ) : List (Fin numberOfQ) :=
  (List.finRange numberOfQ).map fun i => wp + i

theorem slotsFrom_eq : ∀ wp, slotsFrom wp = wp :: (slotsFrom wp).tail := by decide

/-- Writing a slot makes it the last one. -/
theorem slotsFrom_succ : ∀ wp, slotsFrom (wp + 1) = (slotsFrom wp).tail ++ [wp] := by decide

theorem not_mem_tail : ∀ wp, wp ∉ (slotsFrom wp).tail := by decide

theorem mem_slotsFrom : ∀ wp t, t ∈ slotsFrom wp := by decide

/-- A slot is the write position or behind it. -/
theorem eq_or_mem_tail (wp t : Fin numberOfQ) : t = wp ∨ t ∈ (slotsFrom wp).tail := by
  have ht := mem_slotsFrom wp t
  rw [slotsFrom_eq] at ht
  exact List.mem_cons.mp ht

/-- The search of `getLastIndex`: the write position comes last. -/
theorem getLastIndex_eq (q : ListenQ) :
    q.getLastIndex = ((slotsFrom q.wp).tail ++ [q.wp]).find? q.occupied := by
  have hslots : ∀ wp : Fin numberOfQ,
      (List.finRange numberOfQ).map (fun i => wp + (i + 1)) = (slotsFrom wp).tail ++ [wp] := by
    decide
  rw [ListenQ.getLastIndex, hslots]
  rfl

theorem occupied_eq_false {q : ListenQ} {t : Fin numberOfQ} :
    q.occupied t = false ↔ q.item[t].rport = 0 := by
  simp [ListenQ.occupied]

theorem occupied_eq_true {q : ListenQ} {t : Fin numberOfQ} :
    q.occupied t = true ↔ q.item[t].rport ≠ 0 := by
  simp [ListenQ.occupied]

theorem isFree_iff {q : ListenQ} : q.isFree = true ↔ q.item[q.wp].rport = 0 := by
  rw [ListenQ.isFree, beq_iff_eq]
  rfl

theorem occupied_add {q : ListenQ} {item : TcpSocketSynParam} {t : Fin numberOfQ}
    (hf : q.isFree = true) (ht : t ≠ q.wp) : (q.add item).occupied t = q.occupied t := by
  have hne : q.wp.val ≠ t.val := fun hv => ht (Fin.ext hv.symm)
  simp [ListenQ.occupied, ListenQ.add, hf, Vector.getElem_set_ne _ _ hne]

theorem item_add {q : ListenQ} {item : TcpSocketSynParam} (hf : q.isFree = true) :
    (q.add item).item[q.wp] = item := by
  simp [ListenQ.add, hf]

theorem rport_remove (q : ListenQ) (i : Fin numberOfQ) : (q.remove i).item[i].rport = 0 := by
  simp [ListenQ.remove]

theorem item_remove {q : ListenQ} {i t : Fin numberOfQ} (ht : t ≠ i) :
    (q.remove i).item[t] = q.item[t] := by
  have hne : i.val ≠ t.val := fun hv => ht (Fin.ext hv.symm)
  simp [ListenQ.remove, Vector.getElem_set_ne _ _ hne]

/-- The slots hold what has arrived, and the ring keeps its order. -/
structure Aged (q : ListenQ) (arrivals : List Arrival) : Prop where
  slots : arrivals.map Prod.fst = (slotsFrom q.wp).filter q.occupied
  stored : ∀ entry ∈ arrivals, entry.2 = q.item[entry.1]

theorem aged_init (q : ListenQ) : Aged q.init [] := by
  constructor
  · have hfree : ∀ t ∈ slotsFrom q.init.wp, ¬ q.init.occupied t = true := by
      intro t _
      simp [ListenQ.occupied, ListenQ.init]
    rw [List.filter_eq_nil_iff.mpr hfree]
    rfl
  · intro entry h
    cases h

theorem aged_add {q : ListenQ} {arrivals : List Arrival} {item : TcpSocketSynParam}
    (h : Aged q arrivals) (hf : q.isFree = true) (hr : item.rport ≠ 0) :
    Aged (q.add item) (arrivals ++ [(q.wp, item)]) := by
  have hwp : (q.add item).wp = q.wp + 1 := by simp [ListenQ.add, hf]
  have hnew : (q.add item).occupied q.wp = true := by
    rw [occupied_eq_true, item_add hf]
    exact hr
  constructor
  · -- the free slot at the write position moves from the front to the back
    have hold : (slotsFrom q.wp).filter q.occupied =
        (slotsFrom q.wp).tail.filter q.occupied := by
      rw [slotsFrom_eq, List.filter_cons_of_neg, List.tail_cons]
      simpa [occupied_eq_true] using isFree_iff.mp hf
    have hkeep : (slotsFrom q.wp).tail.filter (q.add item).occupied =
        (slotsFrom q.wp).tail.filter q.occupied := by
      refine List.filter_congr fun t ht => occupied_add hf ?_
      rintro rfl
      exact not_mem_tail _ ht
    rw [List.map_append, h.slots, hwp, slotsFrom_succ, List.filter_append, hkeep, hold]
    simp [hnew]
  · intro entry hentry
    rcases List.mem_append.mp hentry with hmem | hmem
    · have hne : entry.1 ≠ q.wp := by
        intro heq
        have hslot : entry.1 ∈ (slotsFrom q.wp).filter q.occupied :=
          h.slots ▸ List.mem_map_of_mem hmem
        have hocc := occupied_eq_true.mp (List.mem_filter.mp hslot).2
        exact hocc (heq ▸ isFree_iff.mp hf)
      have hval : q.wp.val ≠ entry.1.val := fun hv => hne (Fin.ext hv.symm)
      rw [h.stored entry hmem]
      simp [ListenQ.add, hf, Vector.getElem_set_ne _ _ hval]
    · obtain rfl := List.mem_singleton.mp hmem
      exact (item_add hf).symm

theorem aged_remove {q : ListenQ} {arrivals : List Arrival} (h : Aged q arrivals)
    (i : Fin numberOfQ) : Aged (q.remove i) (arrivals.filter fun entry => entry.1 != i) := by
  constructor
  · have hocc : ∀ t, (q.remove i).occupied t = (t != i && q.occupied t) := by
      intro t
      by_cases ht : t = i
      · subst ht
        have hfree : (q.remove t).occupied t = false := occupied_eq_false.mpr (rport_remove q t)
        simp [hfree]
      · simp [ListenQ.occupied, item_remove ht, ht]
    have hmap : (arrivals.filter fun entry => entry.1 != i).map Prod.fst =
        (arrivals.map Prod.fst).filter (· != i) := by
      rw [List.filter_map]
      rfl
    rw [hmap, h.slots, List.filter_filter]
    exact List.filter_congr fun t _ => (hocc t).symm
  · intro entry hentry
    obtain ⟨hmem, hne⟩ := List.mem_filter.mp hentry
    rw [item_remove (bne_iff_ne.mp hne)]
    exact h.stored entry hmem

theorem aged_step {q q' : ListenQ} {arrivals : List Arrival} {a : QueueAct} (h : Aged q arrivals)
    (hs : queueStep q a = some q') : Aged q' (noteArrival arrivals q a q') := by
  cases a with
  | add item =>
    simp only [queueStep] at hs
    split at hs
    · cases hs
    · next hr =>
      obtain rfl := Option.some.inj hs
      cases hf : q.isFree with
      | true =>
        simp only [noteArrival, hf, ↓reduceIte]
        exact aged_add h hf hr
      | false =>
        have hsame : q.add item = q := by simp [ListenQ.add, hf]
        simp only [noteArrival, hf, hsame]
        exact h
  | getLastIndex =>
    obtain rfl := Option.some.inj hs
    exact h
  | remove i =>
    obtain rfl := Option.some.inj hs
    exact aged_remove h i

theorem reaches_aged {ok : ListenQ × List Arrival → QueueAct → Prop}
    {p : ListenQ × List Arrival} (h : agedQueue.Reaches ok p) : Aged p.1 p.2 := by
  refine h.invariant (P := fun p => Aged p.1 p.2) ?_ ?_
  · rintro ⟨q, arrivals⟩ ⟨⟨q₀, rfl⟩, rfl⟩
    exact aged_init q₀
  · rintro ⟨q, arrivals⟩ a ⟨q', arrivals'⟩ hp - hs
    obtain ⟨hstep, rfl⟩ := System.observe_step.mp hs
    exact aged_step hp hstep

/-- The oldest one is found first from the write position on. -/
theorem Aged.head_eq {q : ListenQ} {arrivals : List Arrival} (h : Aged q arrivals) :
    arrivals.head?.map Prod.fst = (slotsFrom q.wp).find? q.occupied := by
  rw [← List.head?_map, h.slots, List.head?_filter]

theorem returnsOldest_iff {q : ListenQ} {arrivals : List Arrival} (h : Aged q arrivals) :
    q.ReturnsOldest arrivals ↔
      q.item[q.wp].rport = 0 ∨ ∀ t : Fin numberOfQ, t ≠ q.wp → q.item[t].rport = 0 := by
  rw [ListenQ.ReturnsOldest, h.head_eq, getLastIndex_eq, List.find?_append]
  cases ho : q.occupied q.wp with
  | false =>
    have hsame : (slotsFrom q.wp).find? q.occupied = (slotsFrom q.wp).tail.find? q.occupied := by
      rw [slotsFrom_eq, List.find?_cons_of_neg (by simp [ho]), List.tail_cons]
    rw [hsame, List.find?_cons_of_neg (by simp [ho]), List.find?_nil, Option.or_none]
    exact iff_of_true rfl (Or.inl (occupied_eq_false.mp ho))
  | true =>
    have hfirst : (slotsFrom q.wp).find? q.occupied = some q.wp := by
      rw [slotsFrom_eq, List.find?_cons_of_pos ho]
    rw [hfirst, List.find?_cons_of_pos ho]
    constructor
    · intro heq
      refine Or.inr fun t ht => ?_
      cases hfind : (slotsFrom q.wp).tail.find? q.occupied with
      | none =>
        have hmem := (eq_or_mem_tail q.wp t).resolve_left ht
        exact occupied_eq_false.mp (by simpa using List.find?_eq_none.mp hfind t hmem)
      | some u =>
        rw [hfind] at heq
        obtain rfl := Option.some.inj heq
        exact absurd (List.mem_of_find?_eq_some hfind) (not_mem_tail _)
    · rintro (hfree | hothers)
      · exact absurd hfree (occupied_eq_true.mp ho)
      · have hnone : (slotsFrom q.wp).tail.find? q.occupied = none := by
          refine List.find?_eq_none.mpr fun t ht => ?_
          have hne : t ≠ q.wp := by
            rintro rfl
            exact not_mem_tail _ ht
          simp [occupied_eq_false.mpr (hothers t hne)]
        rw [hnone]
        rfl

theorem takes_iff {q : ListenQ} {item : TcpSocketSynParam} (hr : item.rport ≠ 0) :
    q.Takes item ↔ q.isFree = true := by
  constructor
  · rintro ⟨t, ht, hadd⟩
    by_contra hf
    have hsame : (q.add item).item = q.item := by simp [ListenQ.add, hf]
    have hslot : q.item[t] = item := by
      have hget := congrArg (fun items : Vector TcpSocketSynParam numberOfQ => items[t])
        (hsame.symm.trans hadd)
      simpa using hget
    exact hr (hslot ▸ ht)
  · intro hf
    exact ⟨q.wp, isFree_iff.mp hf, by simp [ListenQ.add, hf]⟩

theorem takesIffFree_iff (q : ListenQ) :
    q.TakesIffFree ↔
      q.item[q.wp].rport = 0 ∨ ∀ t : Fin numberOfQ, q.item[t].rport ≠ 0 := by
  constructor
  · intro h
    by_contra hno
    obtain ⟨hocc, hsome⟩ := not_or.mp hno
    obtain ⟨t, ht⟩ := not_forall.mp hsome
    have htake := (h ⟨⟨0⟩, 1, 0, 0⟩ (by decide)).mpr ⟨t, not_not.mp ht⟩
    exact hocc (isFree_iff.mp ((takes_iff (by decide)).mp htake))
  · intro h item hr
    rw [takes_iff hr, isFree_iff]
    constructor
    · intro hf
      exact ⟨q.wp, hf⟩
    · rintro ⟨t, ht⟩
      exact h.resolve_right fun hall => hall t ht

theorem Aged.mem_iff {q : ListenQ} {arrivals : List Arrival} (h : Aged q arrivals)
    (entry : Arrival) :
    entry ∈ arrivals ↔ entry.2 = q.item[entry.1] ∧ entry.2.rport ≠ 0 := by
  have hslot : ∀ t, (t ∈ arrivals.map Prod.fst ↔ q.item[t].rport ≠ 0) := by
    intro t
    rw [h.slots, List.mem_filter, occupied_eq_true]
    exact and_iff_right (mem_slotsFrom q.wp t)
  constructor
  · intro hmem
    have hval := h.stored entry hmem
    refine ⟨hval, ?_⟩
    rw [hval]
    exact (hslot entry.1).mp (List.mem_map_of_mem hmem)
  · rintro ⟨hval, hr⟩
    obtain ⟨other, hmem, hfst⟩ := List.mem_map.mp ((hslot entry.1).mpr (hval ▸ hr))
    have heq : other = entry := by
      refine Prod.ext hfst ?_
      rw [h.stored other hmem, hval]
      simp only [hfst]
    exact heq ▸ hmem

/-- With two slots or more, both calls are right exactly at a free write position. -/
theorem isFifo_iff {q : ListenQ} {arrivals : List Arrival} (h : Aged q arrivals) :
    IsFifo q arrivals ↔ q.item[q.wp].rport = 0 := by
  constructor
  · intro hfifo
    by_contra hocc
    have hothers := ((returnsOldest_iff h).mp hfifo.oldest).resolve_left hocc
    have hall := ((takesIffFree_iff q).mp hfifo.adds).resolve_left hocc
    have hne : q.wp + 1 ≠ q.wp := by
      generalize q.wp = wp
      revert wp
      decide
    exact hall (q.wp + 1) (hothers (q.wp + 1) hne)
  · intro hfree
    exact ⟨h.mem_iff, (returnsOldest_iff h).mpr (Or.inl hfree),
      (takesIffFree_iff q).mpr (Or.inl hfree), rport_remove q⟩

/-- No SYN is added when the slot behind the one it is going to take is occupied. -/
def LeavesGap (p : ListenQ × List Arrival) (a : QueueAct) : Prop :=
  ∀ item, a = .add item → p.1.item[p.1.wp + 1].rport = 0

theorem gap_step {q q' : ListenQ} {arrivals : List Arrival} {a : QueueAct}
    (hgap : q.item[q.wp].rport = 0) (hok : LeavesGap (q, arrivals) a)
    (hs : queueStep q a = some q') : q'.item[q'.wp].rport = 0 := by
  cases a with
  | add item =>
    simp only [queueStep] at hs
    split at hs
    · cases hs
    · obtain rfl := Option.some.inj hs
      have hf := isFree_iff.mpr hgap
      have hwp : (q.add item).wp = q.wp + 1 := by simp [ListenQ.add, hf]
      have hne : q.wp + 1 ≠ q.wp := by
        generalize q.wp = wp
        revert wp
        decide
      refine occupied_eq_false.mp ?_
      rw [hwp, occupied_add hf hne]
      exact occupied_eq_false.mpr (hok item rfl)
  | getLastIndex =>
    obtain rfl := Option.some.inj hs
    exact hgap
  | remove i =>
    obtain rfl := Option.some.inj hs
    by_cases hi : q.wp = i
    · subst hi
      exact rport_remove q q.wp
    · have hkeep := item_remove (q := q) hi
      exact hkeep ▸ hgap

theorem reaches_gap {p : ListenQ × List Arrival} (h : agedQueue.Reaches LeavesGap p) :
    p.1.item[p.1.wp].rport = 0 := by
  refine h.invariant (P := fun p => p.1.item[p.1.wp].rport = 0) ?_ ?_
  · rintro ⟨q, arrivals⟩ ⟨⟨q₀, rfl⟩, -⟩
    simp [ListenQ.init]
  · rintro ⟨q, arrivals⟩ a ⟨q', arrivals'⟩ hp hok hs
    exact gap_step hp hok (System.observe_step.mp hs).1

/-- The queue is a FIFO in every run that keeps the slot at the write position free, and in
any run it is one exactly in the states that have it free. -/
theorem listen_queue_fifo {p : ListenQ × List Arrival}
    (h : agedQueue.Reaches System.anyStep p) :
    (agedQueue.Reaches LeavesGap p → IsFifo p.1 p.2) ∧
      (IsFifo p.1 p.2 ↔ p.1.item[p.1.wp].rport = 0) :=
  ⟨fun hgap => (isFifo_iff (reaches_aged hgap)).mpr (reaches_gap hgap),
    isFifo_iff (reaches_aged h)⟩

/-- The SYN from a port, the same otherwise. -/
def synFrom (rport : UInt16) : QueueAct := .add ⟨⟨htonl 0xc0a80007⟩, rport, 0, 0⟩

def emptyQueue : ListenQ := ⟨0, Vector.replicate numberOfQ ⟨⟨0⟩, 0, 0, 0⟩⟩

theorem emptyQueue_init : agedQueue.init (emptyQueue, []) :=
  ⟨⟨emptyQueue, by simp [emptyQueue, ListenQ.init]⟩, rfl⟩

/-- Two SYNs, the first of them taken out. -/
theorem listen_queue_fifo_two : ∃ p : ListenQ × List Arrival,
    p.2.length = 1 ∧ IsFifo p.1 p.2 ∧ p.1.item[p.1.wp].rport = 0 := by
  let okb : ListenQ × List Arrival → QueueAct → Bool := fun p a =>
    match a with
    | .add _ => p.1.item[p.1.wp + 1].rport == 0
    | _ => true
  have hok : ∀ p a, okb p a = true → LeavesGap p a := by
    rintro p a h item rfl
    exact beq_iff_eq.mp h
  have hrun : (agedQueue.runChecked okb (emptyQueue, [])
      [synFrom 7, synFrom 8, .getLastIndex, .remove 0]).any (fun p => p.2.length == 1) = true := by
    decide +kernel
  obtain ⟨p, hp, hlen⟩ := System.exists_of_runChecked hok emptyQueue_init hrun
  have h := listen_queue_fifo (hp.mono fun _ _ _ => trivial)
  exact ⟨p, beq_iff_eq.mp hlen, h.1 hp, h.2.mp (h.1 hp)⟩

/-- Ten SYNs fill the queue. -/
def fullQueue : List QueueAct :=
  [synFrom 1, synFrom 2, synFrom 3, synFrom 4, synFrom 5, synFrom 6, synFrom 7, synFrom 8,
    synFrom 9, synFrom 10]

/-- In the full queue the second SYN comes first, and when it is taken out the next one is
turned away. -/
theorem listen_queue_not_fifo :
    (¬ ∀ p, agedQueue.Reaches System.anyStep p → p.1.ReturnsOldest p.2) ∧
      ¬ ∀ p, agedQueue.Reaches System.anyStep p → p.1.TakesIffFree := by
  constructor
  · intro h
    have hrun : (agedQueue.run (emptyQueue, []) fullQueue).any
        (fun p => p.1.getLastIndex != p.2.head?.map Prod.fst) = true := by decide +kernel
    obtain ⟨p, hp, hne⟩ := System.exists_of_run emptyQueue_init hrun
    exact bne_iff_ne.mp hne (h p hp)
  · intro h
    have hrun : (agedQueue.run (emptyQueue, []) (fullQueue ++ [.getLastIndex, .remove 1])).any
        (fun p => p.1.item[p.1.wp].rport != 0 && p.1.item[(1 : Fin numberOfQ)].rport == 0) =
          true := by decide +kernel
    obtain ⟨p, hp, hq⟩ := System.exists_of_run emptyQueue_init hrun
    obtain ⟨hocc, hfree⟩ := Bool.and_eq_true_iff.mp hq
    rcases (takesIffFree_iff p.1).mp (h p hp) with hwp | hall
    · exact bne_iff_ne.mp hocc hwp
    · exact hall 1 (beq_iff_eq.mp hfree)

end MiMic.NetIf
