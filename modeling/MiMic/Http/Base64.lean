import MiMic.Core.Text
import MiMic.Core.Stdlib
import MiMic.Lib.Base64
import MiMic.Lib.Stores

/-!
# Base64 texts

`NyLPC_cBase64_encode`, of which the opening handshake of the WebSocket module makes its key.
Both positions are numbers of 16 bits, and the caller provides the room that the header asks for.
-/
namespace MiMic.Http.Base64

open Verif

/-- `B64CODE`. -/
def b64Code : List UInt8 := ascii "ABCDEFGHIJKLMNOPQRSTUVWXYZabcdefghijklmnopqrstuvwxyz0123456789+/"

def code (v : Nat) : UInt8 := b64Code.getD v 0

/-- `=`. -/
def chPad : UInt8 := 0x3d

/-- The stores `i_dest[d++]=c`, with the `d` behind them. -/
def putAll (d : UInt16) : List UInt8 → Stores.Log Nat UInt8 × UInt16
  | [] => ([], d)
  | c :: cs => ((d.toNat, c) :: (putAll (d + 1) cs).1, (putAll (d + 1) cs).2)

/-- The round for the bytes from `s` on. -/
def quantum (src : Memory) (s : Nat) : List UInt8 :=
  [code ((0xfc &&& (src s).toNat) >>> 2),
    code ((0x03 &&& (src s).toNat) <<< 4 ||| (0xf0 &&& (src (s + 1)).toNat) >>> 4),
    code ((0x0f &&& (src (s + 1)).toNat) <<< 2 ||| (0xc0 &&& (src (s + 2)).toNat) >>> 6),
    code (0x3f &&& (src (s + 2)).toNat)]

/-- `for(s=0; s<(length-2); s+=3)`, where the bound is an `int`. -/
def quanta (src : Memory) (length : UInt16) : Nat → UInt16 → UInt16 → Stores.Log Nat UInt8 × UInt16
  | 0, _, d => ([], d)
  | fuel + 1, s, d =>
      if (s.toNat : Int) < length.toNat - 2 then
        let r := putAll d (quantum src s.toNat)
        let rest := quanta src length fuel (s + 3) r.2
        (r.1 ++ rest.1, rest.2)
      else ([], d)

/-- `switch(length%3)`. -/
def remainder (src : Memory) (length : UInt16) : List UInt8 :=
  let s := length.toNat - length.toNat % 3
  match length.toNat % 3 with
  | 1 => [code ((0xfc &&& (src s).toNat) >>> 2), code ((0x03 &&& (src s).toNat) <<< 4)]
  | 2 => [code ((0xfc &&& (src s).toNat) >>> 2),
      code ((0x03 &&& (src s).toNat) <<< 4 ||| (0xf0 &&& (src (s + 1)).toNat) >>> 4),
      code ((0x0f &&& (src (s + 1)).toNat) <<< 2)]
  | _ => []

/-- `while(d%4!=0)`. -/
def pads : Nat → UInt16 → List UInt8
  | 0, _ => []
  | fuel + 1, d => if d % 4 ≠ 0 then chPad :: pads fuel (d + 1) else []

/-- `NyLPC_cBase64_encode`, as the list of its stores. 65536 turns are enough for every length. -/
def encode (src : Memory) (length : UInt16) : Stores.Log Nat UInt8 :=
  let g := quanta src length 65536 0 0
  let t := putAll g.2 (remainder src length)
  let p := putAll t.2 (pads 4 t.2)
  g.1 ++ t.1 ++ p.1 ++ [(p.2.toNat, 0)]

/-- The room that the header asks for. -/
def sizeOfDest (length : UInt16) : Nat := length.toNat / 3 * 4 + 1

theorem code_eq {v : Nat} (h : v < 64) : code v = Verif.Base64.char v := by
  have hall : ∀ v : Fin 64, code v = Verif.Base64.char v := by decide +kernel
  exact hall ⟨v, h⟩

/-- What the masks and shifts of a byte come to. -/
theorem byte_bits : ∀ a : UInt8, (0xfc &&& a.toNat) >>> 2 = a.toNat / 4 ∧
    (0x03 &&& a.toNat) <<< 4 = (a.toNat % 4) <<< 4 ∧ (0xf0 &&& a.toNat) >>> 4 = a.toNat / 16 ∧
    (0x0f &&& a.toNat) <<< 2 = (a.toNat % 16) <<< 2 ∧ (0xc0 &&& a.toNat) >>> 6 = a.toNat / 64 ∧
    0x3f &&& a.toNat = a.toNat % 64 := forall_char (by decide +kernel)

theorem first_bits (a : UInt8) : (0xfc &&& a.toNat) >>> 2 = a.toNat / 4 := (byte_bits a).1

theorem second_bits_high (a : UInt8) : (0x03 &&& a.toNat) <<< 4 = (a.toNat % 4) <<< 4 := (byte_bits a).2.1

theorem second_bits_low (b : UInt8) : (0xf0 &&& b.toNat) >>> 4 = b.toNat / 16 := (byte_bits b).2.2.1

theorem third_bits_high (b : UInt8) : (0x0f &&& b.toNat) <<< 2 = (b.toNat % 16) <<< 2 := (byte_bits b).2.2.2.1

theorem third_bits_low (c : UInt8) : (0xc0 &&& c.toNat) >>> 6 = c.toNat / 64 := (byte_bits c).2.2.2.2.1

theorem fourth_bits (c : UInt8) : 0x3f &&& c.toNat = c.toNat % 64 := (byte_bits c).2.2.2.2.2

theorem second_bits (a b : UInt8) :
    (0x03 &&& a.toNat) <<< 4 ||| (0xf0 &&& b.toNat) >>> 4 = a.toNat % 4 * 16 + b.toNat / 16 := by
  have hb : b.toNat / 16 < 2 ^ 4 := by
    have := b.toNat_lt
    omega
  rw [second_bits_high, second_bits_low, ← Nat.shiftLeft_add_eq_or_of_lt hb, Nat.shiftLeft_eq]

theorem third_bits (b c : UInt8) :
    (0x0f &&& b.toNat) <<< 2 ||| (0xc0 &&& c.toNat) >>> 6 = b.toNat % 16 * 4 + c.toNat / 64 := by
  have hc : c.toNat / 64 < 2 ^ 2 := by
    have := c.toNat_lt
    omega
  rw [third_bits_high, third_bits_low, ← Nat.shiftLeft_add_eq_or_of_lt hc, Nat.shiftLeft_eq]

/-- Three bytes are regrouped as their number says. -/
theorem quantum_eq (src : Memory) (s : Nat) :
    quantum src s = Verif.Base64.chars 4
      (((src s).toNat * 256 + (src (s + 1)).toNat) * 256 + (src (s + 2)).toNat) := by
  have ha := (src s).toNat_lt
  have hb := (src (s + 1)).toNat_lt
  have hc := (src (s + 2)).toNat_lt
  generalize hv : ((src s).toNat * 256 + (src (s + 1)).toNat) * 256 + (src (s + 2)).toNat = v
  have h1 : v / 64 / 64 / 64 % 64 = (src s).toNat / 4 := by omega
  have h2 : v / 64 / 64 % 64 = (src s).toNat % 4 * 16 + (src (s + 1)).toNat / 16 := by omega
  have h3 : v / 64 % 64 = (src (s + 1)).toNat % 16 * 4 + (src (s + 2)).toNat / 64 := by omega
  have h4 : v % 64 = (src (s + 2)).toNat % 64 := by omega
  rw [quantum, first_bits, second_bits, third_bits, fourth_bits, code_eq (by omega),
    code_eq (by omega), code_eq (by omega), code_eq (by omega)]
  simp only [Verif.Base64.chars, List.nil_append, List.cons_append, h1, h2, h3, h4]

/-- The text from position `k` on, where positions are numbers of 16 bits. -/
def wrapped (k : Nat) (t : List UInt8) : Stores.Log Nat UInt8 :=
  (Stores.ascending k t).map fun s => (s.1 % 65536, s.2)

theorem putAll_eq (k : Nat) (t : List UInt8) :
    putAll (UInt16.ofNat k) t = (wrapped k t, UInt16.ofNat (k + t.length)) := by
  induction t generalizing k with
  | nil => rfl
  | cons c cs ih =>
    have hnext : UInt16.ofNat k + 1 = UInt16.ofNat (k + 1) := (UInt16.ofNat_add k 1).symm
    rw [putAll, hnext, ih, UInt16.toNat_ofNat', List.length_cons, Nat.add_assoc,
      Nat.add_comm 1 cs.length]
    rfl

theorem wrapped_append (k : Nat) (t u : List UInt8) :
    wrapped k (t ++ u) = wrapped k t ++ wrapped (k + t.length) u := by
  rw [wrapped, Stores.ascending_append, List.map_append]
  rfl

@[simp] theorem length_wrapped (k : Nat) (t : List UInt8) : (wrapped k t).length = t.length := by
  rw [wrapped, List.length_map, Stores.length_ascending]

theorem window_cons (src : Memory) (s n : Nat) :
    src.window s (n + 1) = src s :: src.window (s + 1) n := by
  rw [Memory.window, List.range_succ_eq_map, List.map_cons, List.map_map]
  refine congrArg _ (List.map_congr_left fun i _ => ?_)
  show src (s + (i + 1)) = src (s + 1 + i)
  congr 1
  omega

/-- The loop writes the text of all whole groups. -/
theorem quanta_eq (src : Memory) (length : UInt16) (fuel j : Nat) (hj : 3 * j ≤ length.toNat)
    (hfuel : length.toNat - 3 * j < fuel) :
    ∃ q t, quanta src length fuel (UInt16.ofNat (3 * j)) (UInt16.ofNat (4 * j)) =
        (wrapped (4 * j) t, UInt16.ofNat (4 * q)) ∧ 4 * q = 4 * j + t.length ∧
      3 * q = length.toNat - length.toNat % 3 ∧
      Verif.Base64.encode (src.window (3 * j) (length.toNat - 3 * j)) =
        t ++ Verif.Base64.encode (src.window (3 * q) (length.toNat % 3)) := by
  have hlt := length.toNat_lt
  induction fuel generalizing j with
  | zero => exact absurd hfuel (Nat.not_lt_zero _)
  | succ fuel ih =>
    have hs : (UInt16.ofNat (3 * j)).toNat = 3 * j :=
      UInt16.toNat_ofNat_of_lt' (show 3 * j < 65536 by omega)
    rw [quanta, hs]
    by_cases hgo : ((3 * j : Nat) : Int) < length.toNat - 2
    · obtain ⟨q, t, hrest, hlen, hq, htext⟩ := ih (j + 1) (by omega) (by omega)
      refine ⟨q, quantum src (3 * j) ++ t, ?_, ?_, hq, ?_⟩
      · rw [if_pos hgo, putAll_eq]
        have hd : 4 * j + (quantum src (3 * j)).length = 4 * (j + 1) := rfl
        have hnext : UInt16.ofNat (3 * j) + 3 = UInt16.ofNat (3 * (j + 1)) :=
          (UInt16.ofNat_add (3 * j) 3).symm
        simp only [hd, hnext, hrest]
        rw [wrapped_append, hd]
      · rw [List.length_append, hlen]
        show 4 * (j + 1) + _ = 4 * j + (4 + t.length)
        omega
      · obtain ⟨n, hn⟩ : ∃ n, length.toNat - 3 * j = n + 3 := ⟨length.toNat - 3 * j - 3, by omega⟩
        have hnext : length.toNat - 3 * (j + 1) = n := by omega
        rw [hnext] at htext
        rw [hn, window_cons, window_cons, window_cons, Verif.Base64.encode, quantum_eq,
          List.append_assoc, ← htext]
        rfl
    · refine ⟨j, [], by rw [if_neg hgo]; rfl, rfl, by omega, ?_⟩
      rw [List.nil_append]
      congr 2
      omega

/-- The pads go up to the next multiple of four. -/
theorem pads_eq (q i : Nat) :
    pads 4 (UInt16.ofNat (4 * q + i)) = List.replicate ((4 - i % 4) % 4) chPad := by
  have hmod : ∀ i, UInt16.ofNat (4 * q + i) % 4 = UInt16.ofNat (i % 4) := by
    intro i
    apply UInt16.toNat_inj.mp
    rw [UInt16.toNat_mod, UInt16.toNat_ofNat', UInt16.toNat_ofNat']
    show (4 * q + i) % 65536 % 4 = i % 4 % 65536
    omega
  have hnext : ∀ i, UInt16.ofNat (4 * q + i) + 1 = UInt16.ofNat (4 * q + (i + 1)) := fun i =>
    (UInt16.ofNat_add (4 * q + i) 1).symm
  have hi : i % 4 = 0 ∨ i % 4 = 1 ∨ i % 4 = 2 ∨ i % 4 = 3 := by omega
  simp only [pads, hnext, hmod]
  rcases hi with hi | hi | hi | hi
  · rw [hi]
    rfl
  · rw [hi, show (i + 1) % 4 = 2 by omega, show (i + 1 + 1) % 4 = 3 by omega,
      show (i + 1 + 1 + 1) % 4 = 0 by omega]
    rfl
  · rw [hi, show (i + 1) % 4 = 3 by omega, show (i + 1 + 1) % 4 = 0 by omega]
    rfl
  · rw [hi, show (i + 1) % 4 = 0 by omega]
    rfl

theorem window_zero (src : Memory) (s : Nat) : src.window s 0 = [] := rfl

/-- What comes behind the whole groups, with its pads. -/
theorem remainder_eq (src : Memory) (length : UInt16) {q : Nat}
    (hq : 3 * q = length.toNat - length.toNat % 3) :
    remainder src length ++ pads 4 (UInt16.ofNat (4 * q + (remainder src length).length)) =
      Verif.Base64.encode (src.window (3 * q) (length.toNat % 3)) := by
  have ha := (src (3 * q)).toNat_lt
  have hb := (src (3 * q + 1)).toNat_lt
  have hr : length.toNat % 3 = 0 ∨ length.toNat % 3 = 1 ∨ length.toNat % 3 = 2 := by omega
  rw [pads_eq]
  unfold remainder
  rw [← hq]
  rcases hr with hr | hr | hr
  · rw [hr, window_zero, Verif.Base64.encode]
    simp
  · have h1 : (src (3 * q)).toNat * 16 / 64 % 64 = (src (3 * q)).toNat / 4 := by omega
    have h2 : (src (3 * q)).toNat * 16 % 64 = (src (3 * q)).toNat % 4 * 2 ^ 4 := by omega
    rw [hr]
    simp only
    rw [first_bits, second_bits_high, Nat.shiftLeft_eq, code_eq (by omega), code_eq (by omega),
      window_cons, window_zero, Verif.Base64.encode]
    simp only [Verif.Base64.chars, List.nil_append, h1, h2]
    rfl
  · generalize hv : ((src (3 * q)).toNat * 256 + (src (3 * q + 1)).toNat) * 4 = v
    have h1 : v / 64 / 64 % 64 = (src (3 * q)).toNat / 4 := by omega
    have h2 : v / 64 % 64 = (src (3 * q)).toNat % 4 * 16 + (src (3 * q + 1)).toNat / 16 := by omega
    have h3 : v % 64 = (src (3 * q + 1)).toNat % 16 * 2 ^ 2 := by omega
    rw [hr]
    simp only
    rw [first_bits, second_bits, third_bits_high, Nat.shiftLeft_eq, code_eq (by omega),
      code_eq (by omega), code_eq (by omega), window_cons, window_cons, window_zero,
      Verif.Base64.encode, hv]
    simp only [Verif.Base64.chars, List.nil_append, h1, h2, h3]
    rfl

/-- The stores are the text with its terminator, one after the other. -/
theorem encode_eq (src : Memory) (length : UInt16) :
    encode src length = wrapped 0 (Verif.Base64.encode (src.window 0 length.toNat) ++ [0]) := by
  have hlt := length.toNat_lt
  obtain ⟨q, t, hquanta, hlen, hq, htext⟩ := quanta_eq src length 65536 0 (by omega) (by omega)
  have hquanta' : quanta src length 65536 0 0 = (wrapped 0 t, UInt16.ofNat (4 * q)) := hquanta
  have htext' : Verif.Base64.encode (src.window 0 length.toNat) =
      t ++ Verif.Base64.encode (src.window (3 * q) (length.toNat % 3)) := htext
  have hq' : 4 * q = 0 + t.length := hlen
  rw [htext', ← remainder_eq src length hq]
  simp only [encode, hquanta', putAll_eq]
  have hend : ∀ k, [((UInt16.ofNat k).toNat, (0 : UInt8))] = wrapped k [0] := by
    intro k
    rw [UInt16.toNat_ofNat']
    rfl
  rw [hend, hq', ← wrapped_append, Nat.add_assoc, ← List.length_append, ← List.append_assoc,
    ← wrapped_append, Nat.add_assoc, ← List.length_append, ← wrapped_append]

/-- The memory shows the text and its terminator in front of what it held before, and no more
bytes were stored than the header asks for. -/
structure Encodes (src : Memory) (length : UInt16) : Prop where
  text : ∀ m : Memory, Stores.run m (encode src length) =
    Stores.overlay m (Verif.Base64.encode (src.window 0 length.toNat) ++ [0])
  size : (encode src length).length ≤ sizeOfDest length

theorem wrapped_zero {t : List UInt8} (h : t.length ≤ 65536) : wrapped 0 t = Stores.ascending 0 t := by
  have hid : ∀ s ∈ Stores.ascending 0 t, (s.1 % 65536, s.2) = s := by
    intro s hs
    have hin := Stores.inside_ascending 0 t s hs
    rw [Nat.mod_eq_of_lt (by omega)]
  rw [wrapped, List.map_congr_left hid, List.map_id']

/-- The length of a text together with its terminator. -/
theorem length_text (src : Memory) (length : UInt16) :
    (Verif.Base64.encode (src.window 0 length.toNat) ++ [0]).length =
      4 * ((length.toNat + 2) / 3) + 1 := by
  rw [List.length_append, Verif.Base64.length_encode, length_window, List.length_singleton]

theorem base64_encodes_iff (src : Memory) (length : UInt16) :
    Encodes src length ↔ length.toNat % 3 = 0 ∧ length.toNat < 49150 := by
  have hlen := length_text src length
  constructor
  · intro h
    have hsize := h.size
    rw [encode_eq, length_wrapped, hlen, sizeOfDest] at hsize
    refine ⟨by omega, ?_⟩
    by_contra hge
    -- the terminator comes back to the front, where a character belongs
    let t := Verif.Base64.encode (src.window 0 length.toNat)
    have ht : t.length = 4 * ((length.toNat + 2) / 3) := by
      rw [Verif.Base64.length_encode, length_window]
    have hat : t.length % 65536 < t.length := by omega
    have hin : t.length % 65536 < (t ++ [(0 : UInt8)]).length := by
      rw [List.length_append]
      omega
    have hrun := congrFun (h.text fun _ => 0) (t.length % 65536)
    rw [encode_eq, wrapped_append, Nat.zero_add] at hrun
    have hlast : wrapped t.length [0] = [(t.length % 65536, (0 : UInt8))] := rfl
    rw [hlast, Stores.run_concat, Function.update_self,
      Stores.overlay_of_lt _ hin, List.getElem_append_left hat] at hrun
    exact Verif.Base64.ne_zero_of_mem_encode (List.getElem_mem hat) hrun.symm
  · intro ⟨hthree, hlt⟩
    constructor
    · intro m
      rw [encode_eq, wrapped_zero (by omega), Stores.run_ascending]
    · rw [encode_eq, length_wrapped, hlen, sizeOfDest]
      omega

/-- One byte: five are stored where the header asks for one. -/
theorem not_base64_encodes : ¬ Encodes (listMemory (ascii "M")) 1 := by
  intro h
  exact absurd h.size (by decide +kernel)

end MiMic.Http.Base64
