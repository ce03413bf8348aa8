import MiMic.Core.FormatBuffer

/-!
# The calls of the format writer's handler

`NyLPC_cFormatWriter_print` collects text in its array and hands it to a handler, number by
number or 16 bytes at a time; `NyLPC_cFormatWriter_length` converts the numbers in an array of
its own. Every call of the handler is kept with its answer.
-/
namespace MiMic

/-- `NyLPC_cFormatWriter_printHandler`, on what its instance is. -/
abbrev PrintHandler (σ : Type) := σ → List UInt8 → Bool × σ

/-- The variables of the loop, and every call of the handler with its answer. -/
structure PrintState (σ : Type) where
  wk : WorkArray
  ol : Nat
  inst : σ
  calls : List (List UInt8 × Bool)

namespace PrintState

variable {σ : Type} (h : PrintHandler σ)

def call (s : PrintState σ) (len : Nat) : PrintState σ :=
  let piece := s.wk.mem.window 0 len
  { s with inst := (h s.inst piece).2, calls := s.calls ++ [(piece, (h s.inst piece).1)] }

/-- `wk[ol]=c; ol++;` -/
def push (s : PrintState σ) (c : UInt8) : PrintState σ :=
  { s with wk := s.wk.set s.ol c, ol := s.ol + 1 }

/-- A full buffer is written. -/
def writeFull (s : PrintState σ) : PrintState σ :=
  if s.ol ≥ numOfWork then { s.call h numOfWork with ol := 0 } else s

def put (s : PrintState σ) (c : UInt8) : PrintState σ := (s.push c).writeFull h

/-- The buffer is emptied for a number, which is handed on at once. -/
def commit (s : PrintState σ) (conv : WorkArray → WorkArray) : PrintState σ :=
  let s := if s.ol > 0 then { s.call h s.ol with ol := 0 } else s
  let s := { s with wk := conv s.wk }
  s.call h (s.wk.strlen 0)

/-- One byte of `%.*B`. -/
def putHex (s : PrintState σ) (b : UInt8) : PrintState σ :=
  let s := if s.ol ≥ numOfWork - 2 then { s.call h s.ol with ol := 0 } else s
  { s with wk := s.wk.uitoa2 b.toUInt32 16 2 s.ol, ol := s.ol + 2 }

end PrintState

section

variable {σ : Type} (h : PrintHandler σ)

def printWork : FormatPos → List UInt8 → PrintState σ → List FormatArg → Option (PrintState σ)
  | .text, [], s, _ => some s
  | .text, c :: cs, s, args =>
      if c = chPercent then printWork (.spec .nothing) cs s args
      else printWork .text cs (s.put h c) args
  | .spec _, [], s, _ => some (s.writeFull h)
  | .spec f, c :: cs, s, args =>
      if c = chDot then
        match cs with
        | d :: ds =>
            if d = chAsterisk then printWork (.spec .length) ds s args
            else printWork .text (d :: ds) (s.put h c) args
        | [] => printWork .text [] (s.put h c) args
      else if c = 0x73 then do
        let (ut, args) ← nextLimit 0x7fffffff f args
        let (mem, args) ← nextPtr args
        printWork .text cs ((limited mem ut).foldl (PrintState.put h) s) args
      else if c = 0x63 then do
        let (v, args) ← nextWord args
        printWork .text cs (s.put h v.toUInt8) args
      else if c = 0x64 then do
        let (v, args) ← nextWord args
        printWork .text cs (s.commit h (WorkArray.itoa v.toInt32 10 0)) args
      else if c = 0x75 then do
        let (v, args) ← nextWord args
        printWork .text cs (s.commit h (WorkArray.uitoa v 10 0)) args
      else if c = 0x78 then do
        let (v, args) ← nextWord args
        printWork .text cs (s.commit h (WorkArray.uitoa v 16 0)) args
      else if c = 0x42 then do
        let (ut, args) ← nextLimit 0 f args
        let (mem, args) ← nextPtr args
        if ut.toNat ≤ mem.length then
          printWork .text cs ((mem.take ut.toNat).foldl (PrintState.putHex h) s) args
        else none
      else if c = chPercent then printWork .text cs (s.put h c) args
      else
        -- `rp` is not moved on: an unknown character is printed once more as text
        printWork .text cs ((s.put h c).put h c) args

/-- What a call of `NyLPC_cFormatWriter_print` leaves behind. -/
structure PrintRun (σ : Type) where
  wk : WorkArray
  inst : σ
  calls : List (List UInt8 × Bool)
  ret : Bool

/-- The bytes that the handler was given. -/
def PrintRun.output (r : PrintRun σ) : List UInt8 := (r.calls.map Prod.fst).flatten

/-- `NyLPC_cFormatWriter_print`; `stack` is what `wk` shows before anything is stored. -/
def printTo (inst : σ) (stack : Memory) (fmt : List UInt8) (args : List FormatArg) :
    Option (PrintRun σ) :=
  (printWork h .text (cString fmt) ⟨⟨stack, 0⟩, 0, inst, []⟩ args).map fun s =>
    let r := s.call h s.ol
    ⟨r.wk, r.inst, r.calls, (h s.inst (s.wk.mem.window 0 s.ol)).1⟩

end

structure LengthState where
  wk : WorkArray
  len : Int16

namespace LengthState

def add (s : LengthState) (n : Int16) : LengthState := { s with len := s.len + n }

def commit (s : LengthState) (conv : WorkArray → WorkArray) : LengthState :=
  ⟨conv s.wk, s.len + Int16.ofNat ((conv s.wk).strlen 0)⟩

end LengthState

def lengthWork : FormatPos → List UInt8 → LengthState → List FormatArg → Option LengthState
  | .text, [], s, _ => some s
  | .text, c :: cs, s, args =>
      if c = chPercent then lengthWork (.spec .nothing) cs s args
      else lengthWork .text cs (s.add 1) args
  | .spec _, [], s, _ => some s
  | .spec f, c :: cs, s, args =>
      if c = chDot then
        match cs with
        | d :: ds =>
            if d = chAsterisk then lengthWork (.spec .length) ds s args
            else lengthWork .text (d :: ds) (s.add 1) args
        | [] => lengthWork .text [] (s.add 1) args
      else if c = 0x73 then do
        let (ut, args) ← nextLimit 0x7fffffff f args
        let (mem, args) ← nextPtr args
        lengthWork .text cs ((limited mem ut).foldl (fun s _ => s.add 1) s) args
      else if c = 0x63 then do
        let (_, args) ← nextWord args
        lengthWork .text cs (s.add 1) args
      else if c = 0x64 then do
        let (v, args) ← nextWord args
        lengthWork .text cs (s.commit (WorkArray.itoa v.toInt32 10 0)) args
      else if c = 0x75 then do
        let (v, args) ← nextWord args
        lengthWork .text cs (s.commit (WorkArray.uitoa v 10 0)) args
      else if c = 0x78 then do
        let (v, args) ← nextWord args
        lengthWork .text cs (s.commit (WorkArray.uitoa v 16 0)) args
      else if c = 0x42 then do
        let (ut, args) ← nextLimit 0 f args
        let (_, args) ← nextPtr args
        lengthWork .text cs (s.add (Int16.ofNat ut.toNat * 2)) args
      else if c = chPercent then lengthWork .text cs (s.add 1) args
      else lengthWork .text cs ((s.add 1).add 1) args

/-- `NyLPC_cFormatWriter_length`. -/
def countTo (stack : Memory) (fmt : List UInt8) (args : List FormatArg) : Option LengthState :=
  lengthWork .text (cString fmt) ⟨⟨stack, 0⟩, 0⟩ args

/-- What a handler answers to one piece after the other. -/
def PrintHandler.answers {σ : Type} (h : PrintHandler σ) : σ → List (List UInt8) → List Bool
  | _, [] => []
  | inst, p :: ps => (h inst p).1 :: answers h (h inst p).2 ps

/-- Where the pieces leave its instance. -/
def PrintHandler.after {σ : Type} (h : PrintHandler σ) (inst : σ) (ps : List (List UInt8)) : σ :=
  ps.foldl (fun inst p => (h inst p).2) inst

section

variable {σ : Type} {h : PrintHandler σ} {inst₀ : σ}

theorem PrintHandler.answers_append (inst : σ) (ps qs : List (List UInt8)) :
    h.answers inst (ps ++ qs) = h.answers inst ps ++ h.answers (h.after inst ps) qs := by
  induction ps generalizing inst with
  | nil => rfl
  | cons p ps ih => exact congrArg ((h inst p).1 :: ·) (ih _)

/-- The calls so far are those with the pieces `out`. -/
structure PrintState.Called (h : PrintHandler σ) (inst₀ : σ) (s : PrintState σ)
    (out : List (List UInt8)) : Prop where
  pieces : s.calls.map Prod.fst = out
  answers : s.calls.map Prod.snd = h.answers inst₀ out
  inst : s.inst = h.after inst₀ out

/-- The buffer has no part in it. -/
theorem PrintState.Called.frame {s s' : PrintState σ} {out : List (List UInt8)}
    (hs : s.Called h inst₀ out) (hcalls : s'.calls = s.calls) (hinst : s'.inst = s.inst) :
    s'.Called h inst₀ out :=
  ⟨hcalls ▸ hs.pieces, hcalls ▸ hs.answers, hinst.trans hs.inst⟩

theorem PrintState.Called.call {s : PrintState σ} {out : List (List UInt8)} {p : List UInt8}
    {len : Nat} (hs : s.Called h inst₀ out) (hp : s.wk.mem.window 0 len = p) :
    (s.call h len).Called h inst₀ (out ++ [p]) := by
  refine ⟨?_, ?_, ?_⟩
  · simp [PrintState.call, hs.pieces, hp]
  · rw [PrintHandler.answers_append, ← hs.answers, ← hs.inst]
    simp [PrintState.call, hp, PrintHandler.answers]
  · rw [PrintHandler.after, List.foldl_append]
    simp only [PrintState.call, hp, hs.inst]
    rfl

/-- The array holds the work of the list model, and was never left. -/
structure PrintState.Holds (h : PrintHandler σ) (inst₀ : σ) (s : PrintState σ) (w : FormatWork) :
    Prop where
  called : s.Called h inst₀ w.out
  shows : s.wk.Shows w.wk
  ol : s.ol = w.wk.length
  room : w.wk.length < numOfWork

namespace PrintState.Holds

variable {s : PrintState σ} {w : FormatWork}

theorem shows_nil (hs : s.Holds h inst₀ w) : s.wk.Shows [] := ⟨rfl, hs.shows.top⟩

theorem put (hs : s.Holds h inst₀ w) (c : UInt8) : (s.put h c).Holds h inst₀ (w.put c) := by
  have hpush : (s.push c).wk.Shows (w.wk ++ [c]) := by
    rw [PrintState.push, hs.ol]
    exact hs.shows.snoc hs.room c
  have hol : (s.push c).ol = (w.wk ++ [c]).length := by
    simp [PrintState.push, hs.ol]
  have hcalled : (s.push c).Called h inst₀ w.out := hs.called.frame rfl rfl
  rw [PrintState.put, PrintState.writeFull, FormatWork.put, hol]
  by_cases hfull : (w.wk ++ [c]).length ≥ 16
  · have hlen : (w.wk ++ [c]).length = numOfWork := by
      refine le_antisymm ?_ hfull
      rw [List.length_append, List.length_singleton]
      exact hs.room
    have hwindow : (s.push c).wk.mem.window 0 numOfWork = w.wk ++ [c] := hlen ▸ hpush.window
    have hnext := hcalled.call hwindow
    rw [if_pos hlen.ge, if_pos hfull]
    exact ⟨hnext.frame rfl rfl, ⟨rfl, hpush.top⟩, rfl, Nat.zero_lt_succ 15⟩
  · have hno : ¬ (w.wk ++ [c]).length ≥ numOfWork := hfull
    rw [if_neg hno, if_neg hfull]
    exact ⟨hcalled, hpush, hol, not_le.mp hfull⟩

theorem putAll (hs : s.Holds h inst₀ w) (cs : List UInt8) :
    (cs.foldl (PrintState.put h) s).Holds h inst₀ (cs.foldl FormatWork.put w) := by
  induction cs generalizing s w with
  | nil => exact hs
  | cons c cs ih => exact ih (hs.put c)

/-- What the buffer holds is written. -/
theorem emptied (hs : s.Holds h inst₀ w) :
    ({ s.call h s.ol with ol := 0 } : PrintState σ).Holds h inst₀ ⟨[], w.out ++ [w.wk]⟩ := by
  have hwindow : s.wk.mem.window 0 s.ol = w.wk := hs.ol ▸ hs.shows.window
  have hnext := hs.called.call hwindow
  exact ⟨hnext.frame rfl rfl, ⟨rfl, hs.shows.top⟩, rfl, Nat.zero_lt_succ 15⟩

theorem commit {conv : WorkArray → WorkArray} {t : List UInt8} (hs : s.Holds h inst₀ w)
    (hconv : WorkArray.Converts conv t) : (s.commit h conv).Holds h inst₀ (w.commit t) := by
  have hone : ∀ (s : PrintState σ) (out : List (List UInt8)), s.Called h inst₀ out →
      s.wk.Shows [] → s.ol = 0 →
        ((({ s with wk := conv s.wk } : PrintState σ).call h ((conv s.wk).strlen 0)).Holds h inst₀
          ⟨[], out ++ [t]⟩) := by
    intro s out hcalled hnil hol
    have hshow := hconv.shows s.wk hnil
    have hstore : ({ s with wk := conv s.wk } : PrintState σ).Called h inst₀ out :=
      hcalled.frame rfl rfl
    have hnext := hstore.call hshow.take.window
    rw [hconv.strlen hnil]
    exact ⟨hnext, ⟨rfl, hshow.top⟩, hol, Nat.zero_lt_succ 15⟩
  have hol := hs.ol
  rw [PrintState.commit, FormatWork.commit]
  by_cases hwork : w.wk.length > 0
  · have hpos : s.ol > 0 := by omega
    simp only [if_pos hwork, if_pos hpos]
    exact hone _ (w.out ++ [w.wk]) hs.emptied.called hs.emptied.shows rfl
  · have hzero : ¬ s.ol > 0 := by omega
    simp only [if_neg hwork, if_neg hzero]
    exact hone s w.out hs.called hs.shows_nil (by omega)

theorem putHex (hs : s.Holds h inst₀ w) (b : UInt8) :
    (s.putHex h b).Holds h inst₀ (w.putHex b) := by
  have hhex : ∀ (s : PrintState σ) (w : FormatWork), s.Holds h inst₀ w → w.wk.length < 14 →
      ({ s with wk := s.wk.uitoa2 b.toUInt32 16 2 s.ol, ol := s.ol + 2 } : PrintState σ).Holds h inst₀
        ⟨w.wk ++ uitoa2 b.toUInt32 16 2, w.out⟩ := by
    intro s w hs hroom
    have hshow := shows_uitoa2 b hs.shows (by rw [numOfWork]; omega)
    rw [← List.append_assoc] at hshow
    have htwo := length_uitoa2_byte b
    refine ⟨hs.called.frame rfl rfl, ?_, ?_, ?_⟩
    · rw [hs.ol]
      exact hshow.take
    · rw [hs.ol, List.length_append, htwo]
    · rw [List.length_append, htwo, numOfWork]
      omega
  have hol := hs.ol
  rw [PrintState.putHex, FormatWork.putHex]
  by_cases hfull : w.wk.length ≥ 14
  · have hs' : s.ol ≥ numOfWork - 2 := by
      rw [hol]
      exact hfull
    simp only [if_pos hfull, if_pos hs']
    have hnext := hhex _ _ hs.emptied (Nat.zero_lt_succ 13)
    exact hnext
  · have hs' : ¬ s.ol ≥ numOfWork - 2 := by
      rw [hol]
      exact hfull
    simp only [if_neg hfull, if_neg hs']
    exact hhex s w hs (not_le.mp hfull)

theorem putHexAll (hs : s.Holds h inst₀ w) (bs : List UInt8) :
    (bs.foldl (PrintState.putHex h) s).Holds h inst₀ (bs.foldl FormatWork.putHex w) := by
  induction bs generalizing s w with
  | nil => exact hs
  | cons b bs ih => exact ih (hs.putHex b)

end PrintState.Holds

/-- Both loops take the same arguments off. -/
theorem rel_bind {α β γ : Type} {R : β → γ → Prop} {o : Option α} {k : α → Option β}
    {k' : α → Option γ} (hk : ∀ a, Option.Rel R (k a) (k' a)) :
    Option.Rel R (o.bind k) (o.bind k') := by
  cases o with
  | none => exact .none
  | some a => exact hk a

/-- The loop on the array does what the loop on lists does. -/
theorem printWork_holds {pos : FormatPos} {fmt : List UInt8} {s : PrintState σ} {w : FormatWork}
    {args : List FormatArg} (hs : s.Holds h inst₀ w) :
    Option.Rel (PrintState.Holds h inst₀) (printWork h pos fmt s args) (printLoop pos fmt w args) := by
  fun_induction printLoop pos fmt w args generalizing s with
  | case1 w args => exact .some hs
  | case2 cs w args ih =>
    rw [printWork, if_pos rfl]
    exact ih hs
  | case3 c cs w args hc ih =>
    rw [printWork, if_neg hc]
    exact ih (hs.put c)
  | case4 f w args =>
    have hroom : ¬ s.ol ≥ numOfWork := by
      rw [hs.ol]
      exact not_le.mpr hs.room
    rw [printWork, PrintState.writeFull, if_neg hroom]
    exact .some hs
  | case5 f w args ds ih =>
    rw [printWork, if_pos rfl, if_pos rfl]
    exact ih hs
  | case6 f w args d ds hd ih =>
    rw [printWork, if_pos rfl, if_neg hd]
    exact ih (hs.put chDot)
  | case7 f w args ih =>
    rw [printWork, if_pos rfl]
    exact ih (hs.put chDot)
  | case8 f cs w args hd ih =>
    rw [printWork.eq_def]
    simp only [if_neg hd, if_true]
    exact rel_bind fun l => rel_bind fun m => ih _ _ _ (hs.putAll _)
  | case9 f cs w args hd h1 ih =>
    rw [printWork.eq_def]
    simp only [if_neg hd, if_neg h1, if_true]
    exact rel_bind fun v => ih _ _ (hs.put _)
  | case10 f cs w args hd h1 h2 ih =>
    rw [printWork.eq_def]
    simp only [if_neg hd, if_neg h1, if_neg h2, if_true]
    exact rel_bind fun v => ih _ _ (hs.commit (converts_itoa _ (by decide) (by decide)))
  | case11 f cs w args hd h1 h2 h3 ih =>
    rw [printWork.eq_def]
    simp only [if_neg hd, if_neg h1, if_neg h2, if_neg h3, if_true]
    exact rel_bind fun v => ih _ _ (hs.commit (converts_uitoa _ (by decide) (by decide)))
  | case12 f cs w args hd h1 h2 h3 h4 ih =>
    rw [printWork.eq_def]
    simp only [if_neg hd, if_neg h1, if_neg h2, if_neg h3, if_neg h4, if_true]
    exact rel_bind fun v => ih _ _ (hs.commit (converts_uitoa _ (by decide) (by decide)))
  | case13 f cs w args hd h1 h2 h3 h4 h5 ih =>
    rw [printWork.eq_def]
    simp only [if_neg hd, if_neg h1, if_neg h2, if_neg h3, if_neg h4, if_neg h5, if_true]
    refine rel_bind fun l => rel_bind fun m => ?_
    by_cases hle : l.1.toNat ≤ m.1.length
    · rw [if_pos hle, if_pos hle]
      exact ih _ _ _ (hs.putHexAll _)
    · rw [if_neg hle, if_neg hle]
      exact .none
  | case14 f cs w args hd h1 h2 h3 h4 h5 h6 ih =>
    rw [printWork.eq_def]
    simp only [if_neg hd, if_neg h1, if_neg h2, if_neg h3, if_neg h4, if_neg h5, if_neg h6, if_true]
    exact ih (hs.put _)
  | case15 f c cs w args hd h1 h2 h3 h4 h5 h6 h7 ih =>
    rw [printWork.eq_def]
    simp only [if_neg hd, if_neg h1, if_neg h2, if_neg h3, if_neg h4, if_neg h5, if_neg h6, if_neg h7]
    exact ih ((hs.put _).put _)

/-- The handler is called with the pieces of the format, and the last answer is returned. -/
theorem printTo_eq (h : PrintHandler σ) (inst₀ : σ) {fmt : List UInt8} {args : List FormatArg} {pieces : List (List UInt8)}
    (stack : Memory) (hp : formatPrint (cString fmt) args = some pieces) :
    ∃ r, printTo h inst₀ stack fmt args = some r ∧ r.calls.map Prod.fst = pieces ∧
      r.calls.map Prod.snd = h.answers inst₀ pieces ∧
      (h.answers inst₀ pieces).getLast? = some r.ret ∧ r.wk.top ≤ numOfWork := by
  obtain ⟨w, hw, rfl⟩ := Option.map_eq_some_iff.mp hp
  have hstart : PrintState.Holds h inst₀ ⟨⟨stack, 0⟩, 0, inst₀, []⟩ ⟨[], []⟩ :=
    ⟨⟨rfl, rfl, rfl⟩, ⟨rfl, Nat.zero_le _⟩, rfl, Nat.zero_lt_succ 15⟩
  have hrel : Option.Rel (PrintState.Holds h inst₀) (printWork h .text (cString fmt) _ args)
    (printLoop .text (cString fmt) _ args) := printWork_holds hstart
  rw [hw] at hrel
  cases hs : printWork h .text (cString fmt) ⟨⟨stack, 0⟩, 0, inst₀, []⟩ args with
  | none =>
    rw [hs] at hrel
    cases hrel
  | some s =>
    rw [hs] at hrel
    cases hrel with
    | some hrel =>
      have hwindow : s.wk.mem.window 0 s.ol = w.wk := hrel.ol ▸ hrel.shows.window
      have hlast := hrel.called.call hwindow
      refine ⟨_, by rw [printTo, hs, Option.map_some], hlast.pieces, hlast.answers, ?_, ?_⟩
      · rw [← hlast.answers]
        simp [PrintState.call]
      · exact hrel.shows.top

end

/-- The count of the list model; nothing of the array matters from one conversion to the next. -/
structure LengthState.Counts (s : LengthState) (len : Int16) : Prop where
  len : s.len = len
  shows : s.wk.Shows []

namespace LengthState.Counts

variable {s : LengthState} {len : Int16}

theorem add (hs : s.Counts len) (n : Int16) : (s.add n).Counts (len + n) :=
  ⟨congrArg (· + n) hs.len, hs.shows⟩

theorem addAll (hs : s.Counts len) (cs : List UInt8) :
    (cs.foldl (fun s _ => s.add 1) s).Counts (cs.foldl (fun len _ => len + 1) len) := by
  induction cs generalizing s len with
  | nil => exact hs
  | cons c cs ih => exact ih (hs.add 1)

theorem commit {conv : WorkArray → WorkArray} {t : List UInt8} (hs : s.Counts len)
    (hconv : WorkArray.Converts conv t) : (s.commit conv).Counts (len + Int16.ofNat t.length) := by
  have hshow := hconv.shows s.wk hs.shows
  refine ⟨?_, ⟨rfl, hshow.top⟩⟩
  rw [LengthState.commit, hconv.strlen hs.shows, hs.len]

end LengthState.Counts

theorem lengthWork_counts {pos : FormatPos} {fmt : List UInt8} {s : LengthState} {len : Int16}
    {args : List FormatArg} (hs : s.Counts len) :
    Option.Rel LengthState.Counts (lengthWork pos fmt s args) (lengthLoop pos fmt len args) := by
  fun_induction lengthLoop pos fmt len args generalizing s with
  | case1 len args => exact .some hs
  | case2 cs len args ih =>
    rw [lengthWork, if_pos rfl]
    exact ih hs
  | case3 c cs len args hc ih =>
    rw [lengthWork, if_neg hc]
    exact ih (hs.add 1)
  | case4 f len args => exact .some hs
  | case5 f len args ds ih =>
    rw [lengthWork, if_pos rfl, if_pos rfl]
    exact ih hs
  | case6 f len args d ds hd ih =>
    rw [lengthWork, if_pos rfl, if_neg hd]
    exact ih (hs.add 1)
  | case7 f len args ih =>
    rw [lengthWork, if_pos rfl]
    exact ih (hs.add 1)
  | case8 f cs len args hd ih =>
    rw [lengthWork.eq_def]
    simp only [if_neg hd, if_true]
    exact rel_bind fun l => rel_bind fun m => ih _ _ _ (hs.addAll _)
  | case9 f cs len args hd h1 ih =>
    rw [lengthWork.eq_def]
    simp only [if_neg hd, if_neg h1, if_true]
    exact rel_bind fun v => ih _ (hs.add 1)
  | case10 f cs len args hd h1 h2 ih =>
    rw [lengthWork.eq_def]
    simp only [if_neg hd, if_neg h1, if_neg h2, if_true]
    exact rel_bind fun v => ih _ _ (hs.commit (converts_itoa _ (by decide) (by decide)))
  | case11 f cs len args hd h1 h2 h3 ih =>
    rw [lengthWork.eq_def]
    simp only [if_neg hd, if_neg h1, if_neg h2, if_neg h3, if_true]
    exact rel_bind fun v => ih _ _ (hs.commit (converts_uitoa _ (by decide) (by decide)))
  | case12 f cs len args hd h1 h2 h3 h4 ih =>
    rw [lengthWork.eq_def]
    simp only [if_neg hd, if_neg h1, if_neg h2, if_neg h3, if_neg h4, if_true]
    exact rel_bind fun v => ih _ _ (hs.commit (converts_uitoa _ (by decide) (by decide)))
  | case13 f cs len args hd h1 h2 h3 h4 h5 ih =>
    rw [lengthWork.eq_def]
    simp only [if_neg hd, if_neg h1, if_neg h2, if_neg h3, if_neg h4, if_neg h5, if_true]
    exact rel_bind fun l => rel_bind fun m => ih _ _ (hs.add _)
  | case14 f cs len args hd h1 h2 h3 h4 h5 h6 ih =>
    rw [lengthWork.eq_def]
    simp only [if_neg hd, if_neg h1, if_neg h2, if_neg h3, if_neg h4, if_neg h5, if_neg h6, if_true]
    exact ih (hs.add 1)
  | case15 f c cs len args hd h1 h2 h3 h4 h5 h6 h7 ih =>
    rw [lengthWork.eq_def]
    simp only [if_neg hd, if_neg h1, if_neg h2, if_neg h3, if_neg h4, if_neg h5, if_neg h6, if_neg h7]
    exact ih ((hs.add 1).add 1)

theorem countTo_eq {fmt : List UInt8} {args : List FormatArg} {len : Int16} (stack : Memory)
    (hl : formatLength (cString fmt) args = some len) :
    ∃ l, countTo stack fmt args = some l ∧ l.len = len ∧ l.wk.top ≤ numOfWork := by
  have hstart : LengthState.Counts ⟨⟨stack, 0⟩, 0⟩ 0 := ⟨rfl, ⟨rfl, Nat.zero_le _⟩⟩
  have hrel : Option.Rel LengthState.Counts (lengthWork .text (cString fmt) _ args)
    (lengthLoop .text (cString fmt) _ args) := lengthWork_counts hstart
  rw [show lengthLoop .text (cString fmt) 0 args = some len from hl] at hrel
  rw [countTo]
  cases hs : lengthWork .text (cString fmt) ⟨⟨stack, 0⟩, 0⟩ args with
  | none =>
    rw [hs] at hrel
    cases hrel
  | some s =>
    rw [hs] at hrel
    cases hrel with
    | some hrel => exact ⟨s, rfl, hrel.len, hrel.shows.top⟩

/-- The call passes the arguments that its format asks for. -/
def ArgsFit (fmt : List UInt8) (args : List FormatArg) : Prop :=
  (formatText (cString fmt) args).isSome

instance (fmt : List UInt8) (args : List FormatArg) : Decidable (ArgsFit fmt args) :=
  inferInstanceAs (Decidable ((formatText (cString fmt) args).isSome = true))

/-- The dry run returns the number of the bytes that the handler is given, as far as 16 bits hold
it, and neither function stores behind the end of its array. -/
theorem length_printed {σ : Type} (h : PrintHandler σ) (inst : σ) (stack stack' : Memory)
    {fmt : List UInt8} {args : List FormatArg} (hargs : ArgsFit fmt args) :
    ∃ r l, printTo h inst stack fmt args = some r ∧ countTo stack' fmt args = some l ∧
      (r.output.length < 32768 → l.len.toInt = r.output.length) ∧
      r.wk.top ≤ numOfWork ∧ l.wk.top ≤ numOfWork := by
  obtain ⟨t, ht⟩ := Option.isSome_iff_exists.mp hargs
  obtain ⟨pieces, hp, hflat⟩ := formatPrint_some ht
  obtain ⟨r, hr, hcalls, -, -, hrtop⟩ := printTo_eq h inst stack hp
  obtain ⟨l, hl, hlen, hltop⟩ := countTo_eq stack' (formatLength_text ht)
  have hout : r.output = t := by rw [PrintRun.output, hcalls, hflat]
  refine ⟨r, l, hr, hl, fun hlt => ?_, hrtop, hltop⟩
  rw [hout] at hlt ⊢
  have hsize : (Int16.size : Int) = 65536 := rfl
  rw [hlen, Int16.toInt_ofNat']
  exact Int.bmod_eq_of_le (by omega) (by omega)

/-- A handler that takes everything. -/
def takesAll : PrintHandler Unit := fun _ _ => (true, ())

theorem length_printed_pair :
    ∃ r l, printTo takesAll () (listMemory []) (ascii "%s=%d") [.ptr (ascii "n"), .word 0xfffffff4] =
        some r ∧
      countTo (listMemory []) (ascii "%s=%d") [.ptr (ascii "n"), .word 0xfffffff4] = some l ∧
      (r.output.length < 32768 → l.len.toInt = r.output.length) ∧
      r.wk.top ≤ numOfWork ∧ l.wk.top ≤ numOfWork :=
  length_printed takesAll () _ _ (by decide)

/-- The result of a call tells that nothing was lost. -/
def ReportsFailures {σ : Type} (h : PrintHandler σ) (inst : σ) (stack : Memory) (fmt : List UInt8)
    (args : List FormatArg) : Prop :=
  ∀ r, printTo h inst stack fmt args = some r → r.ret = true → ∀ c ∈ r.calls, c.2 = true

/-- Whoever refuses one of the pieces refuses the last one as well. -/
def PrintHandler.StaysFailed {σ : Type} (h : PrintHandler σ) (inst : σ) (ps : List (List UInt8)) : Prop :=
  false ∈ h.answers inst ps → (h.answers inst ps).getLast? = some false

/-- The pieces that a format and its arguments are cut into. -/
def formatPieces (fmt : List UInt8) (args : List FormatArg) : List (List UInt8) :=
  (formatPrint (cString fmt) args).getD []

/-- Only the answer to the last piece counts. -/
theorem reportsFailures_iff {σ : Type} (h : PrintHandler σ) (inst : σ) (stack : Memory)
    {fmt : List UInt8} {args : List FormatArg} (hargs : ArgsFit fmt args) :
    ReportsFailures h inst stack fmt args ↔ h.StaysFailed inst (formatPieces fmt args) := by
  obtain ⟨t, ht⟩ := Option.isSome_iff_exists.mp hargs
  obtain ⟨ps, hps, -⟩ := formatPrint_some ht
  obtain ⟨r, hr, -, hanswers, hret, -⟩ := printTo_eq h inst stack hps
  have hmem : (∀ c ∈ r.calls, c.2 = true) ↔ false ∉ h.answers inst ps := by
    rw [← hanswers]
    simp
  have hreports : ReportsFailures h inst stack fmt args ↔
      (r.ret = true → false ∉ h.answers inst ps) := by
    rw [← hmem]
    exact ⟨fun hall => hall r hr, fun hall r' hr' => Option.some.inj (hr ▸ hr') ▸ hall⟩
  rw [hreports, formatPieces, hps, Option.getD_some, PrintHandler.StaysFailed, hret,
    Option.some.injEq]
  cases r.ret <;> simp

theorem formatPieces_ne_nil {fmt : List UInt8} {args : List FormatArg} (hargs : ArgsFit fmt args) :
    formatPieces fmt args ≠ [] := by
  obtain ⟨t, ht⟩ := Option.isSome_iff_exists.mp hargs
  obtain ⟨ps, hps, -⟩ := formatPrint_some ht
  rw [formatPieces, hps]
  exact (formatPrint_short hps).1

/-- A handler that fails once, at its first call. -/
def failsFirst : PrintHandler Bool := fun called _ => (called, true)

theorem answers_failsFirst (ps : List (List UInt8)) : failsFirst.answers true ps = ps.map fun _ => true := by
  induction ps with
  | nil => rfl
  | cons p ps ih => exact congrArg (true :: ·) ih

/-- For a single piece every handler stays failed, for more than one `failsFirst` does not. -/
theorem staysFailed_all_iff {ps : List (List UInt8)} (hne : ps ≠ []) :
    (∀ (σ : Type) (h : PrintHandler σ) (inst : σ), h.StaysFailed inst ps) ↔ ps.length = 1 := by
  obtain ⟨p, ps, rfl⟩ := List.exists_cons_of_ne_nil hne
  constructor
  · intro hall
    have hfirst := hall Bool failsFirst false
    have hanswers : failsFirst.answers false (p :: ps) = false :: ps.map fun _ => true :=
      congrArg (false :: ·) (answers_failsFirst ps)
    rw [PrintHandler.StaysFailed, hanswers] at hfirst
    have hlast := hfirst (List.mem_cons_self ..)
    cases ps with
    | nil => rfl
    | cons q ps =>
      rw [List.map_cons, List.getLast?_cons_cons] at hlast
      have hmem := List.mem_of_getLast? hlast
      simp at hmem
  · intro hone σ h inst
    obtain rfl := List.length_eq_zero_iff.mp (Nat.succ.inj hone)
    intro hfail
    rw [PrintHandler.answers, PrintHandler.answers, List.mem_singleton] at hfail
    rw [PrintHandler.answers, PrintHandler.answers, ← hfail]
    rfl

/-- The result of printing tells of every failure exactly when the handler stays failed up to the
last piece; with every handler it does so exactly for the output of a single call. -/
theorem print_reports_failures {fmt : List UInt8} {args : List FormatArg} (hargs : ArgsFit fmt args) :
    (∀ (σ : Type) (h : PrintHandler σ) (inst : σ) (stack : Memory),
      ReportsFailures h inst stack fmt args ↔ h.StaysFailed inst (formatPieces fmt args)) ∧
    ((∀ (σ : Type) (h : PrintHandler σ) (inst : σ) (stack : Memory),
      ReportsFailures h inst stack fmt args) ↔ (formatPieces fmt args).length = 1) := by
  have hiff : ∀ (σ : Type) (h : PrintHandler σ) (inst : σ) (stack : Memory),
      ReportsFailures h inst stack fmt args ↔ h.StaysFailed inst (formatPieces fmt args) :=
    fun σ h inst stack => reportsFailures_iff h inst stack hargs
  refine ⟨hiff, ?_⟩
  rw [← staysFailed_all_iff (formatPieces_ne_nil hargs)]
  exact ⟨fun hall σ h inst => (hiff σ h inst (listMemory [])).mp (hall σ h inst _),
    fun hall σ h inst stack => (hiff σ h inst stack).mpr (hall σ h inst)⟩

theorem print_reports_failures_short :
    ((∀ (σ : Type) (h : PrintHandler σ) (inst : σ) (stack : Memory),
        ReportsFailures h inst stack (ascii "%s:") [.ptr (ascii "ready")] ↔
          h.StaysFailed inst (formatPieces (ascii "%s:") [.ptr (ascii "ready")])) ∧
      ((∀ (σ : Type) (h : PrintHandler σ) (inst : σ) (stack : Memory),
        ReportsFailures h inst stack (ascii "%s:") [.ptr (ascii "ready")]) ↔
          (formatPieces (ascii "%s:") [.ptr (ascii "ready")]).length = 1)) ∧
      (formatPieces (ascii "%s:") [.ptr (ascii "ready")]).length = 1 :=
  ⟨print_reports_failures (by decide), by decide⟩

theorem printTo_seventeen :
    (printTo failsFirst false (listMemory []) (ascii "0123456789abcdef!") []).map
        (fun r => (r.ret, r.calls)) =
      some (true, [(ascii "0123456789abcdef", false), (ascii "!", true)]) := by
  decide +kernel

/-- The first 16 of these bytes are lost, and the result is `TRUE`. -/
theorem failure_forgotten :
    ¬ ReportsFailures failsFirst false (listMemory []) (ascii "0123456789abcdef!") [] := by
  intro hall
  obtain ⟨r, hr, hpair⟩ := Option.map_eq_some_iff.mp printTo_seventeen
  obtain ⟨hret, hcalls⟩ := Prod.mk.inj hpair
  have hlost := hall r hr hret (ascii "0123456789abcdef", false)
    (by rw [hcalls]; exact List.mem_cons_self ..)
  cases hlost

end MiMic
