import MiMic.Flash.Configulation
import MiMic.Httpd.FileIoUrl
import MiMic.Httpd.Modules
import MiMic.Vm.DbCompiler

/-!
# The URL of a settings request

`NyLPC_cModMiMicSetting` takes a command, a host name and eight words from the URL of a request.
They are stored in a union whose other member is the configuration that is written to flash.
-/
namespace MiMic.Httpd

open Flash Http Http.UrlQuery
open Verif.NorFlash (Cells patch patch_inside patch_outside)
open Vm (DbCompiler wordsOf)
open ModFileIoBaseClass (UnderRoot)

namespace ModMiMicSetting

/-- `ST_PARSE_PATH` to `ST_PARSE_QUERY_VALUE_HOST`. -/
inductive ParseSt
  | path
  | queryName
  | queryValue
  | queryValueP
  | queryValueC
  | queryValueHost
deriving DecidableEq, Repr

def contentIdUnknown : UInt8 := 1
def contentIdSetup : UInt8 := 2
def qnameIdP : UInt8 := 4
def qnameIdC : UInt8 := 5
def qnameIdHost : UInt8 := 6
def qnameIdUnknown : UInt8 := 0
def qvalCGet : UInt32 := 1
def qvalCUpdate : UInt32 := 2
def qvalCUnknown : UInt32 := 0

def setupApi : List UInt8 := ascii "setup.api"

def urlTbl : List (List UInt8 × UInt8) := [(setupApi, contentIdSetup)]

def pKey : List UInt8 := ascii "p"
def cKey : List UInt8 := ascii "c"
def hostKey : List UInt8 := ascii "host"

def qnameIdTable : List (List UInt8 × UInt8) :=
  [(pKey, qnameIdP), (cKey, qnameIdC), (hostKey, qnameIdHost)]

def paramLen (m : Cells) : UInt16 := Memory.u16 m 0

def hostLen (m : Cells) : UInt16 := Memory.u16 m 2

def cval (m : Cells) : UInt32 := Memory.u32 m 68

/-- A letter, a digit or an underscore. -/
def hostChar (c : UInt8) : Bool := UrlReader.isAlnum c || c == chUnderscore

/-- `TModMiMicSettingRequest`; `content` is the union from its first byte on. -/
structure SettingHeader where
  contentId : UInt8
  qeryNameId : UInt8
  astate : ParseSt
  prefixLen : Int
  tstr : CStr
  binparser : DbCompiler
  content : Cells

namespace SettingHeader

/-- `NyLPC_cStr_put` into the string buffer; a full one is an error. -/
def put (h : SettingHeader) (c : UInt8) : Bool × SettingHeader :=
  match h.tstr.put c with
  | none => (false, h)
  | some t => (true, { h with tstr := t })

/-- The end of the path. -/
def endPath (h : SettingHeader) : SettingHeader :=
  let id := getMatchId h.tstr.str urlTbl contentIdUnknown
  { h with
    contentId := id
    content :=
      if id = contentIdSetup then store32 (store16 (store16 h.content 0 0) 2 0) 68 qvalCUnknown
      else h.content
    tstr := h.tstr.clear
    astate := .queryName }

/-- The end of a key, whether or not a value follows. -/
def endKey (h : SettingHeader) : SettingHeader :=
  let id := getMatchId h.tstr.str qnameIdTable qnameIdUnknown
  let h := { h with
    qeryNameId := id
    tstr := h.tstr.clear }
  if id = qnameIdP then { h with
    astate := .queryValueP
    content := store16 h.content 0 0 }
  else if id = qnameIdC then { h with astate := .queryValueC }
  else if id = qnameIdHost then { h with
    astate := .queryValueHost
    content := store16 h.content 2 0 }
  else { h with astate := .queryValue }

/-- A character of a host name; it is stored before the length is looked at. -/
def putHost (h : SettingHeader) (c : UInt8) : Bool × SettingHeader :=
  if !hostChar c then (false, h)
  else
    let n := hostLen h.content
    let m := store16 (patch h.content (4 + n.toNat) 1 fun _ => c) 2 (n + 1)
    (decide ((n + 1).toNat < hostnameLen), { h with content := m })

def endHost (h : SettingHeader) : SettingHeader :=
  { h with
    content := patch h.content (4 + (hostLen h.content).toNat) 1 fun _ => 0
    astate := .queryName }

def endCommand (h : SettingHeader) : Bool × SettingHeader :=
  let next (v : UInt32) : SettingHeader :=
    { h with
      content := store32 h.content 68 v
      astate := .queryName
      tstr := h.tstr.clear }
  if h.tstr.str = ascii "get" then (true, next qvalCGet)
  else if h.tstr.str = ascii "update" then (true, next qvalCUpdate)
  else (false, h)

/-- A character of a word. -/
def putParam (h : SettingHeader) (c : UInt8) : Bool × SettingHeader :=
  let n := paramLen h.content
  if sizeOfSetupParam ≤ n.toNat then (false, h)
  else
    let r := h.binparser.compileFragment [c]
    let m := r.val.elim h.content fun v => store32 h.content (36 + 4 * n.toNat) v
    match r.ret with
    | .continue => (true, { h with binparser := r.d, content := m })
    | .ok => (true, { h with binparser := r.d, content := store16 m 0 (n + 1) })
    | .error => (false, { h with binparser := r.d, content := m })

def endParams (h : SettingHeader) : Bool × SettingHeader :=
  if h.binparser.hasFragment then (false, h)
  else (true, { h with astate := .queryName, tstr := h.tstr.clear })

/-- A character of the query. -/
def queryChar (h : SettingHeader) (c : UInt8) : ParseSt → Bool × SettingHeader
  | .queryName => if !endsKey c then h.put c else (true, h.endKey)
  | .queryValue => if !endsItem c then (true, h) else (true, { h with astate := .queryName })
  | .queryValueHost => if !endsItem c then h.putHost c else (true, h.endHost)
  | .queryValueC => if !endsItem c then h.put c else h.endCommand
  | .queryValueP => if !endsItem c then h.putParam c else h.endParams
  | .path => (false, h)

end SettingHeader

/-- `urlHandler`. -/
def urlHandler (h : SettingHeader) (c : UInt8) : Bool × SettingHeader :=
  if h.prefixLen < 0 then (true, { h with prefixLen := h.prefixLen + 1 })
  else if h.astate = .path then if !endsPath c then h.put c else (true, h.endPath)
  else if h.contentId ≠ contentIdSetup then (false, h)
  else h.queryChar c h.astate

/-- `header` as `execute` sets it up; the rest of it is what was on the stack. -/
def start (old : SettingHeader) (root : List UInt8) : SettingHeader :=
  { old with
    prefixLen := -(root.length + 2)
    astate := .path
    tstr := .ofSize 16
    binparser := DbCompiler.init }

/-- What the pairs of a query leave: the text that an empty key is taken for, the command, and the
host name and the words so far. -/
structure Reading where
  stale : List UInt8
  cval : UInt32
  host : List UInt8
  words : List UInt32
deriving DecidableEq

/-- In front of the query. -/
def Reading.first : Reading := ⟨setupApi, qvalCUnknown, [], []⟩

/-- A key that does not fit is refused, and an empty one leaves the text before it. -/
def readKey (stale key : List UInt8) : Option (List UInt8) :=
  if 15 < key.length then none else some (if key = [] then stale else key)

/-- The words or the host name are asked for anew. -/
def Reading.begin (r : Reading) (key : List UInt8) : Reading :=
  if key = pKey then { r with stale := key, words := [] }
  else if key = hostKey then { r with stale := key, host := [] }
  else { r with stale := key }

/-- The commands. -/
def commandOf (v : List UInt8) : Option UInt32 :=
  if v = ascii "get" then some qvalCGet else if v = ascii "update" then some qvalCUpdate else none

/-- A host name with its terminator fits, and is made of its characters. -/
def HostText (v : List UInt8) : Prop := (∀ c ∈ v, hostChar c = true) ∧ v.length < hostnameLen

instance (v : List UInt8) : Decidable (HostText v) := inferInstanceAs (Decidable (_ ∧ _))

/-- Whole words, of which the buffer holds eight. -/
def paramWords (v : List UInt8) : Option (List UInt32) :=
  (wordsOf v).bind fun p => if p.2 = [] ∧ p.1.length ≤ sizeOfSetupParam then some p.1 else none

/-- The value of the last key. -/
def Reading.value (r : Reading) (v : List UInt8) : Option Reading :=
  if r.stale = pKey then (paramWords v).map fun ws => { r with words := ws }
  else if r.stale = cKey then (commandOf v).map fun id => { r with stale := v, cval := id }
  else if r.stale = hostKey then if HostText v then some { r with host := v } else none
  else some r

def readPair (r : Reading) : List UInt8 × Option (List UInt8) → Option Reading
  | (key, none) => (readKey r.stale key).map r.begin
  | (key, some v) => (readKey r.stale key).bind fun k => (r.begin k).value v

/-- The host name so far. -/
structure HostIs (m : Cells) (x : List UInt8) : Prop where
  len : (hostLen m).toNat = x.length
  text : HostText x
  name : ∀ i c, x[i]? = some c → m (4 + i) = c

/-- The words so far. -/
structure ParamsAre (m : Cells) (ws : List UInt32) : Prop where
  len : (paramLen m).toNat = ws.length
  room : ws.length ≤ sizeOfSetupParam
  word : ∀ i w, ws[i]? = some w → Memory.u32 m (36 + 4 * i) = w

/-- Behind a host name that is complete there is its terminator. -/
def Terminated (m : Cells) (x : List UInt8) : Prop := x ≠ [] → m (4 + x.length) = 0

variable {m m' : Cells} {x : List UInt8} {ws : List UInt32}

theorem HostIs.congr (h : HostIs m x) (heq : ∀ k, 2 ≤ k → k < 36 → m' k = m k) : HostIs m' x := by
  have hshort : x.length < 32 := h.text.2
  have hlen : hostLen m' = hostLen m := u16_congr fun k hk => heq _ (by omega) (by omega)
  refine ⟨by rw [hlen, h.len], h.text, fun i c hi => ?_⟩
  have hlt := (List.getElem?_eq_some_iff.mp hi).1
  rw [heq _ (by omega) (by omega), h.name i c hi]

theorem ParamsAre.congr (h : ParamsAre m ws) (heq : ∀ k, k < 2 ∨ 36 ≤ k ∧ k < 68 → m' k = m k) :
    ParamsAre m' ws := by
  have hroom : ws.length ≤ 8 := h.room
  have hlen : paramLen m' = paramLen m := u16_congr fun k hk => heq _ (by omega)
  refine ⟨by rw [hlen, h.len], h.room, fun i w hi => ?_⟩
  have hlt := (List.getElem?_eq_some_iff.mp hi).1
  have hword : Memory.u32 m' (36 + 4 * i) = Memory.u32 m (36 + 4 * i) :=
    u32_congr fun k hk => heq _ (by omega)
  rw [hword, h.word i w hi]

theorem Terminated.congr (h : Terminated m x) (htext : HostText x)
    (heq : ∀ k, 2 ≤ k → k < 36 → m' k = m k) : Terminated m' x := by
  intro hne
  have hshort : x.length < 32 := htext.2
  rw [heq _ (by omega) (by omega), h hne]

theorem hostText_nil : HostText [] := ⟨fun c hc => (nomatch hc), by decide⟩

theorem hostIs_nil (m : Cells) : HostIs (store16 m 2 0) [] := by
  refine ⟨?_, hostText_nil, fun i c hi => nomatch hi⟩
  rw [hostLen, u16_store16]
  rfl

theorem paramsAre_nil (m : Cells) : ParamsAre (store16 m 0 0) [] := by
  refine ⟨?_, Nat.zero_le _, fun i w hi => nomatch hi⟩
  rw [paramLen, u16_store16]
  rfl

/-- A character more. -/
theorem HostIs.push (h : HostIs m x) {c : UInt8} (hc : hostChar c = true)
    (hroom : x.length + 1 < hostnameLen) :
    HostIs (store16 (patch m (4 + (hostLen m).toNat) 1 fun _ => c) 2 (hostLen m + 1)) (x ++ [c]) := by
  have hlen := h.len
  have hshort : x.length + 1 < 32 := hroom
  have hnext : (hostLen m + 1).toNat = x.length + 1 := by
    rw [UInt16.toNat_add, hlen]
    exact Nat.mod_eq_of_lt (show x.length + 1 < 65536 by omega)
  refine ⟨?_, ⟨?_, ?_⟩, fun i d hi => ?_⟩
  · rw [hostLen, u16_store16, hnext, List.length_append, List.length_singleton]
  · intro d hd
    rcases List.mem_append.mp hd with hd | hd
    · exact h.text.1 d hd
    · rw [List.mem_singleton.mp hd, hc]
  · rw [List.length_append, List.length_singleton]
    exact hroom
  · rw [store16, patch_outside (by omega)]
    rcases Nat.lt_or_ge i x.length with hlt | hge
    · rw [List.getElem?_append_left hlt] at hi
      rw [patch_outside (by omega), h.name i d hi]
    · rw [List.getElem?_append_right hge] at hi
      have hzero : i - x.length = 0 := by
        have hone := (List.getElem?_eq_some_iff.mp hi).1
        rw [List.length_singleton] at hone
        omega
      rw [hzero] at hi
      rw [patch_inside (by omega) (by omega)]
      exact Option.some.inj hi

/-- A word more. -/
theorem ParamsAre.push (h : ParamsAre m ws) (hroom : ws.length < sizeOfSetupParam) (w : UInt32) :
    ParamsAre (store16 (store32 m (36 + 4 * (paramLen m).toNat) w) 0 (paramLen m + 1)) (ws ++ [w]) := by
  have hlen := h.len
  have hshort : ws.length < 8 := hroom
  have hnext : (paramLen m + 1).toNat = ws.length + 1 := by
    rw [UInt16.toNat_add, hlen]
    exact Nat.mod_eq_of_lt (show ws.length + 1 < 65536 by omega)
  refine ⟨?_, ?_, fun i v hi => ?_⟩
  · rw [paramLen, u16_store16, hnext, List.length_append, List.length_singleton]
  · rw [List.length_append, List.length_singleton]
    exact hroom
  · rw [store16, u32_patch (by omega)]
    rcases Nat.lt_or_ge i ws.length with hlt | hge
    · rw [List.getElem?_append_left hlt] at hi
      rw [store32, u32_patch (by omega), h.word i v hi]
    · rw [List.getElem?_append_right hge] at hi
      have hzero : i - ws.length = 0 := by
        have hone := (List.getElem?_eq_some_iff.mp hi).1
        rw [List.length_singleton] at hone
        omega
      rw [hzero] at hi
      have hat : 36 + 4 * i = 36 + 4 * (paramLen m).toNat := by omega
      rw [hat, u32_store32]
      exact Option.some.inj hi

theorem cval_patch {a n : Nat} {f : Cells} (h : a + n ≤ 68) : cval (patch m a n f) = cval m :=
  u32_patch (Or.inr h)

structure InQuery (st : ParseSt) (h : SettingHeader) : Prop where
  prefixLen : ¬h.prefixLen < 0
  astate : h.astate = st
  contentId : h.contentId = contentIdSetup

/-- What is read, with the characters of a word that is not whole. -/
structure Gathers (st : ParseSt) (h : SettingHeader) (r : Reading) (tmp : List UInt8) : Prop
    extends InQuery st h where
  shows : h.tstr.Shows 15 []
  stale : h.tstr.str = r.stale
  binparser : h.binparser = ⟨tmp⟩
  cval : cval h.content = r.cval
  host : HostIs h.content r.host
  params : ParamsAre h.content r.words

/-- In front of a key or of a value. -/
structure At (st : ParseSt) (h : SettingHeader) (r : Reading) : Prop extends Gathers st h r [] where
  terminated : Terminated h.content r.host

/-- The state for the value of a key. -/
def valueSt (key : List UInt8) : ParseSt :=
  if key = pKey then .queryValueP
  else if key = cKey then .queryValueC
  else if key = hostKey then .queryValueHost
  else .queryValue

/-- In front of the value of the key that was read last. -/
structure AtValue (h : SettingHeader) (r : Reading) : Prop extends At (valueSt r.stale) h r where
  words : r.stale = pKey → r.words = []
  host_nil : r.stale = hostKey → r.host = []

variable {st : ParseSt} {h : SettingHeader} {r : Reading} {tmp : List UInt8}

theorem InQuery.call (hin : InQuery st h) (hst : st ≠ .path) (c : UInt8) :
    urlHandler h c = h.queryChar c st := by
  rw [urlHandler, if_neg hin.prefixLen, if_neg (by rw [hin.astate]; exact hst),
    if_neg (not_not.mpr hin.contentId), hin.astate]

theorem InQuery.tstr (hin : InQuery st h) (t : CStr) : InQuery st { h with tstr := t } :=
  ⟨hin.prefixLen, hin.astate, hin.contentId⟩

theorem getMatchId_key (key : List UInt8) : getMatchId key qnameIdTable qnameIdUnknown =
    if key = pKey then qnameIdP
    else if key = cKey then qnameIdC
    else if key = hostKey then qnameIdHost
    else qnameIdUnknown := by
  rw [getMatchId, qnameIdTable]
  by_cases hp : key = pKey
  · rw [if_pos hp, List.find?_cons_of_pos (by simpa using hp.symm)]
    rfl
  · rw [if_neg hp, List.find?_cons_of_neg (by simpa using fun h => hp h.symm)]
    by_cases hc : key = cKey
    · rw [if_pos hc, List.find?_cons_of_pos (by simpa using hc.symm)]
      rfl
    · rw [if_neg hc, List.find?_cons_of_neg (by simpa using fun h => hc h.symm)]
      by_cases hh : key = hostKey
      · rw [if_pos hh, List.find?_cons_of_pos (by simpa using hh.symm)]
        rfl
      · rw [if_neg hh, List.find?_cons_of_neg (by simpa using fun h => hh h.symm)]
        rfl

/-- At its end a key is looked up, and the words or the host name begin anew. -/
theorem At.endKey (hat : At .queryName h r) {t : CStr} {x key : List UInt8} (ht : t.Shows 15 x)
    (hkey : t.str = key) :
    At (valueSt key) ({ h with tstr := t } : SettingHeader).endKey (r.begin key) := by
  subst hkey
  have hstr : t.clear.str = t.str := rfl
  unfold SettingHeader.endKey Reading.begin valueSt
  simp only [getMatchId_key]
  by_cases hp : t.str = pKey
  · -- the words begin anew
    simp only [if_pos hp, if_true]
    have hkeep : ∀ k, 2 ≤ k → k < 36 → store16 h.content 0 0 k = h.content k :=
      fun k hk _ => patch_outside (by omega)
    exact ⟨⟨⟨hat.prefixLen, rfl, hat.contentId⟩, ht.clear, hstr, hat.binparser,
      (cval_patch (by decide)).trans hat.cval, hat.host.congr hkeep, paramsAre_nil _⟩,
      hat.terminated.congr hat.host.text hkeep⟩
  · simp only [if_neg hp]
    by_cases hc : t.str = cKey
    · have hh : ¬t.str = hostKey := by
        rw [hc]
        decide
      have hid' : qnameIdC ≠ qnameIdP := by decide
      simp only [if_pos hc, if_neg hh, if_neg hid', if_true]
      exact ⟨⟨⟨hat.prefixLen, rfl, hat.contentId⟩, ht.clear, hstr, hat.binparser, hat.cval, hat.host,
        hat.params⟩, hat.terminated⟩
    · simp only [if_neg hc]
      by_cases hh : t.str = hostKey
      · -- the host name begins anew
        have hid' : qnameIdHost ≠ qnameIdP ∧ qnameIdHost ≠ qnameIdC := by decide
        simp only [if_pos hh, if_neg hid'.1, if_neg hid'.2, if_true]
        refine ⟨⟨⟨hat.prefixLen, rfl, hat.contentId⟩, ht.clear, hstr, hat.binparser, ?_, ?_, ?_⟩, ?_⟩
        · exact (cval_patch (by decide)).trans hat.cval
        · exact hostIs_nil _
        · refine hat.params.congr fun k hk => ?_
          show store16 h.content 2 0 k = _
          rw [store16, patch_outside (by omega)]
        · exact fun hne => absurd rfl hne
      · have hid' : qnameIdUnknown ≠ qnameIdP ∧ qnameIdUnknown ≠ qnameIdC ∧
            qnameIdUnknown ≠ qnameIdHost := by decide
        simp only [if_neg hh, if_neg hid'.1, if_neg hid'.2.1, if_neg hid'.2.2]
        exact ⟨⟨⟨hat.prefixLen, rfl, hat.contentId⟩, ht.clear, hstr, hat.binparser, hat.cval, hat.host,
          hat.params⟩, hat.terminated⟩

theorem begin_cases (r : Reading) (key : List UInt8) : (r.begin key).stale = key ∧
    (key = pKey → (r.begin key).words = []) ∧ (key = hostKey → (r.begin key).host = []) := by
  unfold Reading.begin
  by_cases hp : key = pKey
  · rw [if_pos hp]
    refine ⟨rfl, fun _ => rfl, fun hh => ?_⟩
    rw [hp] at hh
    exact absurd hh (by decide)
  · rw [if_neg hp]
    by_cases hh : key = hostKey
    · rw [if_pos hh]
      exact ⟨rfl, fun h => absurd h hp, fun _ => rfl⟩
    · rw [if_neg hh]
      exact ⟨rfl, fun h => absurd h hp, fun h => absurd h hh⟩

/-- A key up to its end. -/
theorem goes_key (hat : At .queryName h r) {k : List UInt8} (hk : ∀ c ∈ k, endsKey c = false)
    {c : UInt8} (hc : endsKey c = true) :
    Goes urlHandler AtValue h (k ++ [c]) ((readKey r.stale k).map r.begin) := by
  have hput : ∀ (t : CStr) (c : UInt8), endsKey c = false → urlHandler { h with tstr := t } c =
      match t.put c with
      | none => (false, { h with tstr := t })
      | some t' => (true, { h with tstr := t' }) := by
    intro t c hc
    rw [(hat.toInQuery.tstr t).call (by decide) c]
    simp only [SettingHeader.queryChar, hc, Bool.not_false, if_true, SettingHeader.put]
  refine CStr.Shows.goes (fun t => { h with tstr := t }) hput hat.shows hk (fun hlong => ?_) ?_
  · rw [List.length_nil, Nat.zero_add] at hlong
    rw [readKey, if_pos hlong]
    rfl
  · intro hfits t ht hnil
    rw [List.length_nil, Nat.zero_add] at hfits
    rw [readKey, if_neg (not_lt.mpr hfits)]
    have hkey : t.str = if k = [] then r.stale else k := by
      by_cases hempty : k = []
      · rw [if_pos hempty, hnil hempty, hat.stale]
      · have hz : ∀ c ∈ k, c ≠ 0 := fun c hc h0 => absurd (hk c hc) (by rw [h0]; decide)
        rw [if_neg hempty, ht.str_eq hempty, List.nil_append, cString_of_ne_zero hz]
    have hcall : urlHandler { h with tstr := t } c = (true, ({ h with tstr := t } : SettingHeader).endKey) := by
      rw [(hat.toInQuery.tstr t).call (by decide) c]
      simp only [SettingHeader.queryChar, hc, Bool.not_true, Bool.false_eq_true, if_false]
    obtain ⟨hstale, hwords, hhost⟩ := begin_cases r (if k = [] then r.stale else k)
    refine goes_call hcall ⟨?_, ?_, ?_⟩
    · rw [hstale]
      exact hat.endKey ht hkey
    · rwa [hstale]
    · rwa [hstale]

/-- The value of an unknown key is passed over. -/
theorem goes_skip (hat : At .queryValue h r) {v : List UInt8} (hv : ∀ c ∈ v, endsItem c = false)
    {e : UInt8} (he : endsItem e = true) : Goes urlHandler (At .queryName) h (v ++ [e]) (some r) := by
  have hcall : ∀ c, urlHandler h c =
      if !endsItem c then (true, h) else (true, { h with astate := .queryName }) :=
    hat.toInQuery.call (by decide)
  induction v with
  | nil =>
    have hend := hcall e
    rw [he, Bool.not_true, if_neg Bool.false_ne_true] at hend
    exact goes_call hend ⟨⟨⟨hat.prefixLen, rfl, hat.contentId⟩, hat.shows, hat.stale, hat.binparser,
      hat.cval, hat.host, hat.params⟩, hat.terminated⟩
  | cons c v ih =>
    have hskip := hcall c
    rw [hv c List.mem_cons_self, Bool.not_false, if_pos rfl] at hskip
    exact goes_cons hskip (ih fun d hd => hv d (List.mem_cons_of_mem _ hd))

/-- A command is stored when it is one of the two. -/
theorem goes_command (hat : At .queryValueC h r) (hkey : r.stale = cKey) {v : List UInt8}
    (hv : ∀ c ∈ v, endsItem c = false) {e : UInt8} (he : endsItem e = true) :
    Goes urlHandler (At .queryName) h (v ++ [e])
      ((commandOf v).map fun id => { r with stale := v, cval := id }) := by
  have hput : ∀ (t : CStr) (c : UInt8), endsItem c = false → urlHandler { h with tstr := t } c =
      match t.put c with
      | none => (false, { h with tstr := t })
      | some t' => (true, { h with tstr := t' }) := by
    intro t c hc
    rw [(hat.toInQuery.tstr t).call (by decide) c]
    simp only [SettingHeader.queryChar, hc, Bool.not_false, if_true, SettingHeader.put]
  refine CStr.Shows.goes (fun t => { h with tstr := t }) hput hat.shows hv (fun hlong => ?_) ?_
  · rw [List.length_nil, Nat.zero_add] at hlong
    have hshort : ∀ w, w = ascii "get" ∨ w = ascii "update" → w.length ≤ 15 := by
      intro w hw
      rcases hw with rfl | rfl <;> decide
    have hget : ¬v = ascii "get" := fun heq => absurd (hshort v (Or.inl heq)) (not_le.mpr hlong)
    have hupdate : ¬v = ascii "update" := fun heq => absurd (hshort v (Or.inr heq)) (not_le.mpr hlong)
    rw [commandOf, if_neg hget, if_neg hupdate]
    rfl
  · intro hfits t ht hnil
    -- of an empty value the key is left in the buffer
    have hstr : t.str = if v = [] then cKey else v := by
      by_cases hempty : v = []
      · rw [if_pos hempty, hnil hempty, hat.stale, hkey]
      · have hz : ∀ c ∈ v, c ≠ 0 := fun c hc h0 => absurd (hv c hc) (by rw [h0]; decide)
        rw [if_neg hempty, ht.str_eq hempty, List.nil_append, cString_of_ne_zero hz]
    have hword : ∀ w, w = ascii "get" ∨ w = ascii "update" → (t.str = w ↔ v = w) := by
      intro w hw
      rw [hstr]
      by_cases hempty : v = []
      · rw [if_pos hempty, hempty]
        rcases hw with rfl | rfl <;> decide
      · rw [if_neg hempty]
    have hget := hword _ (Or.inl rfl)
    have hupdate := hword _ (Or.inr rfl)
    have hcall : urlHandler { h with tstr := t } e =
        ({ h with tstr := t } : SettingHeader).endCommand := by
      rw [(hat.toInQuery.tstr t).call (by decide) e]
      simp only [SettingHeader.queryChar, he, Bool.not_true, Bool.false_eq_true, if_false]
    have hstored : ∀ (w : UInt32), t.str = v → At .queryName
        { h with
          content := store32 h.content 68 w
          astate := .queryName
          tstr := t.clear }
        { r with stale := v, cval := w } := by
      intro w heq
      have hkeep : ∀ k < 68, store32 h.content 68 w k = h.content k :=
        fun k hk => patch_outside (by omega)
      exact ⟨⟨⟨hat.prefixLen, rfl, hat.contentId⟩, ht.clear, heq, hat.binparser, u32_store32 _ _ _,
        hat.host.congr fun k _ hk => hkeep k (by omega), hat.params.congr fun k hk => hkeep k (by omega)⟩,
        hat.terminated.congr hat.host.text fun k _ hk => hkeep k (by omega)⟩
    unfold SettingHeader.endCommand at hcall
    unfold commandOf
    by_cases hv' : v = ascii "get"
    · rw [if_pos (hget.mpr hv')] at hcall
      rw [if_pos hv']
      exact goes_call hcall (hstored qvalCGet ((hget.mpr hv').trans hv'.symm))
    · rw [if_neg fun hs => hv' (hget.mp hs)] at hcall
      rw [if_neg hv']
      by_cases hv'' : v = ascii "update"
      · rw [if_pos (hupdate.mpr hv'')] at hcall
        rw [if_pos hv'']
        exact goes_call hcall (hstored qvalCUpdate ((hupdate.mpr hv'').trans hv''.symm))
      · rw [if_neg fun hs => hv'' (hupdate.mp hs)] at hcall
        rw [if_neg hv'']
        exact goes_refused hcall []

/-- The characters of a host name, up to the first that is none or does not fit. -/
theorem goes_hostText (hg : Gathers .queryValueHost h r []) {v : List UInt8}
    (hv : ∀ c ∈ v, endsItem c = false) :
    Goes urlHandler (fun h r => Gathers .queryValueHost h r []) h v
      (if HostText (r.host ++ v) then some { r with host := r.host ++ v } else none) := by
  induction v generalizing h r with
  | nil =>
    rw [List.append_nil, if_pos hg.host.text]
    exact ⟨h, rfl, hg⟩
  | cons c v ih =>
    have hcall : urlHandler h c = h.putHost c := by
      rw [hg.toInQuery.call (by decide) c]
      simp only [SettingHeader.queryChar, hv c List.mem_cons_self, Bool.not_false, if_true]
    have hsplit : r.host ++ c :: v = (r.host ++ [c]) ++ v := by
      rw [List.append_assoc, List.singleton_append]
    unfold SettingHeader.putHost at hcall
    by_cases hc : hostChar c = true
    · rw [hc, Bool.not_true, if_neg Bool.false_ne_true] at hcall
      have hlen := hg.host.len
      have hshort : r.host.length < 32 := hg.host.text.2
      have hnext : (hostLen h.content + 1).toNat = r.host.length + 1 := by
        rw [UInt16.toNat_add, hlen]
        exact Nat.mod_eq_of_lt (show r.host.length + 1 < 65536 by omega)
      by_cases hroom : r.host.length + 1 < hostnameLen
      · simp only [hnext, decide_eq_true hroom] at hcall
        rw [hsplit]
        refine goes_cons hcall (ih (r := { r with host := r.host ++ [c] }) ⟨⟨hg.prefixLen, hg.astate, hg.contentId⟩,
          hg.shows, hg.stale, hg.binparser, ?_, hg.host.push hc hroom, hg.params.congr fun k hk => ?_⟩
          fun d hd => hv d (List.mem_cons_of_mem _ hd))
        · show cval (store16 (patch _ _ _ _) _ _) = _
          rw [store16, cval_patch (by decide), cval_patch (by omega), hg.cval]
        · show store16 (patch _ _ _ _) _ _ k = _
          rw [store16, patch_outside (by omega), patch_outside (by omega)]
      · simp only [hnext, decide_eq_false hroom] at hcall
        have hno : ¬HostText (r.host ++ c :: v) := by
          intro htext
          have hlong := htext.2
          rw [List.length_append, List.length_cons] at hlong
          omega
        rw [if_neg hno]
        exact goes_refused hcall v
    · rw [Bool.eq_false_iff.mpr hc, Bool.not_false, if_pos rfl] at hcall
      have hno : ¬HostText (r.host ++ c :: v) := fun htext =>
        hc (htext.1 c (List.mem_append_right _ List.mem_cons_self))
      rw [if_neg hno]
      exact goes_refused hcall v

/-- A host name up to the end of its item. -/
theorem goes_host (hat : At .queryValueHost h r) (hnil : r.host = []) {v : List UInt8}
    (hv : ∀ c ∈ v, endsItem c = false) {e : UInt8} (he : endsItem e = true) :
    Goes urlHandler (At .queryName) h (v ++ [e])
      (if HostText v then some { r with host := v } else none) := by
  have hgoes := goes_hostText hat.toGathers hv
  rw [hnil, List.nil_append] at hgoes
  have hend : ∀ r' h', Gathers .queryValueHost h' r' [] →
      Goes urlHandler (At .queryName) h' [e] (some r') := by
    intro r' h' hg
    have hcall : urlHandler h' e = (true, h'.endHost) := by
      rw [hg.toInQuery.call (by decide) e]
      simp only [SettingHeader.queryChar, he, Bool.not_true, Bool.false_eq_true, if_false]
    have hlen := hg.host.len
    have hshort : r'.host.length < 32 := hg.host.text.2
    have hcontent : h'.endHost.content = patch h'.content (4 + r'.host.length) 1 fun _ => 0 := by
      rw [← hlen]
      rfl
    refine goes_call hcall ⟨⟨⟨hg.prefixLen, rfl, hg.contentId⟩, hg.shows, hg.stale, hg.binparser,
      ?_, ⟨?_, hg.host.text, fun i c hi => ?_⟩, hg.params.congr fun k hk => ?_⟩, fun _ => ?_⟩
    · rw [hcontent, cval_patch (by omega), hg.cval]
    · rw [hcontent, hostLen, u16_patch (by omega)]
      exact hlen
    · have hlt := (List.getElem?_eq_some_iff.mp hi).1
      rw [hcontent, patch_outside (by omega), hg.host.name i c hi]
    · rw [hcontent, patch_outside (by omega)]
    · rw [hcontent, patch_inside (by omega) (by omega)]
  have hrun := hgoes.append (g := some) fun r' h' hg => hend r' h' hg
  rwa [Option.bind_fun_some] at hrun

/-- Characters of words: what fits is stored word by word. -/
theorem goes_words (hg : Gathers .queryValueP h r x) (hterm : Terminated h.content r.host)
    (hshort : x.length < 8) (hroom : 8 * r.words.length + x.length ≤ 64) {v : List UInt8}
    (hv : ∀ c ∈ v, endsItem c = false) :
    Goes urlHandler
      (fun h a => Gathers .queryValueP h { r with words := a.1 } a.2 ∧ Terminated h.content r.host) h v
      (if 64 < 8 * r.words.length + x.length + v.length then none
      else (wordsOf (x ++ v)).map fun p => (r.words ++ p.1, p.2)) := by
  induction v generalizing h r x with
  | nil =>
    rw [List.length_nil, if_neg (by omega), List.append_nil, Vm.wordsOf_short hshort, Option.map_some,
      List.append_nil]
    exact ⟨h, rfl, hg, hterm⟩
  | cons c v ih =>
    have hcall : urlHandler h c = h.putParam c := by
      rw [hg.toInQuery.call (by decide) c]
      simp only [SettingHeader.queryChar, hv c List.mem_cons_self, Bool.not_false, if_true]
    have hrest : ∀ d ∈ v, endsItem d = false := fun d hd => hv d (List.mem_cons_of_mem _ hd)
    have hlen := hg.params.len
    have height : sizeOfSetupParam = 8 := rfl
    have hsplit : x ++ c :: v = (x ++ [c]) ++ v := by
      rw [List.append_assoc, List.singleton_append]
    unfold SettingHeader.putParam at hcall
    simp only [hlen, hg.binparser] at hcall
    rw [List.length_cons]
    by_cases hfull : 8 ≤ r.words.length
    · -- the buffer holds eight words
      rw [if_pos (by omega)] at hcall
      rw [if_pos (by omega)]
      exact goes_refused hcall v
    · rw [if_neg (by omega)] at hcall
      rcases Nat.lt_or_ge (x.length + 1) 8 with hpart | hwhole
      · have hfrag : DbCompiler.compileFragment ⟨x⟩ [c] = _ := DbCompiler.compileFragment_short hpart
        rw [hfrag] at hcall
        have hgoes := ih (h := { h with binparser := ⟨x ++ [c]⟩ }) (r := r) (x := x ++ [c])
          ⟨⟨hg.prefixLen, hg.astate, hg.contentId⟩, hg.shows, hg.stale, rfl, hg.cval, hg.host, hg.params⟩
          hterm (by rw [List.length_append, List.length_singleton]; omega)
          (by rw [List.length_append, List.length_singleton]; omega) hrest
        have hsum : 8 * r.words.length + (x ++ [c]).length + v.length =
            8 * r.words.length + x.length + (v.length + 1) := by
          rw [List.length_append, List.length_singleton]
          omega
        rw [hsum, ← hsplit] at hgoes
        exact goes_cons hcall hgoes
      · -- the word is whole
        have htake : (x ++ [c]).length = 8 := by
          rw [List.length_append, List.length_singleton]
          omega
        obtain ⟨hok, herr⟩ := DbCompiler.compileFragment_long
          (show (DbCompiler.mk x).tmp.length < 8 from hshort) (show 8 ≤ _ + [c].length from hwhole)
        have htake' : (x ++ [c]).take 8 = x ++ [c] := List.take_of_length_le (le_of_eq htake)
        rw [htake'] at hok herr
        have hwords : wordsOf (x ++ c :: v) = (Vm.txt2UInt (x ++ [c])).bind fun w =>
            (wordsOf v).map fun q => (w :: q.1, q.2) := by
          rw [hsplit, Vm.wordsOf_long (by rw [List.length_append]; omega), List.take_left' htake,
            List.drop_left' htake]
        rw [hwords]
        cases hw : Vm.txt2UInt (x ++ [c]) with
        | none =>
          have hno : ∃ h', urlHandler h c = (false, h') := by
            rw [hcall, herr hw]
            exact ⟨_, rfl⟩
          obtain ⟨h', hno⟩ := hno
          rw [Option.bind_none, Option.map_none, ite_self]
          exact goes_refused hno v
        | some w =>
          rw [hok w hw] at hcall
          simp only [Option.elim_some] at hcall
          have hpush := hg.params.push (by omega) w
          rw [hlen] at hpush
          have hkeep : ∀ k, 2 ≤ k → k < 36 → store16 (store32 h.content (36 + 4 * r.words.length) w) 0
              (paramLen h.content + 1) k = h.content k := fun k hk hk' => by
            rw [store16, patch_outside (by omega), store32, patch_outside (by omega)]
          have hcval : cval (store16 (store32 h.content (36 + 4 * r.words.length) w) 0
              (paramLen h.content + 1)) = r.cval := by
            rw [store16, cval_patch (by decide), store32, cval_patch (by omega), hg.cval]
          have hfits : 8 * (r.words ++ [w]).length + ([] : List UInt8).length ≤ 64 := by
            rw [List.length_append, List.length_singleton, List.length_nil]
            omega
          have hgoes := ih (h := { h with
              binparser := ⟨[]⟩
              content := store16 (store32 h.content (36 + 4 * r.words.length) w) 0 (paramLen h.content + 1) })
            (r := { r with words := r.words ++ [w] }) (x := [])
            ⟨⟨hg.prefixLen, hg.astate, hg.contentId⟩, hg.shows, hg.stale, rfl, hcval,
              hg.host.congr hkeep, hpush⟩ (hterm.congr hg.host.text hkeep) (by decide) hfits hrest
          have hsum : 8 * (r.words ++ [w]).length + ([] : List UInt8).length + v.length =
              8 * r.words.length + x.length + (v.length + 1) := by
            rw [List.length_append, List.length_singleton, List.length_nil]
            omega
          have hsame : (wordsOf ([] ++ v)).map (fun p => (r.words ++ [w] ++ p.1, p.2)) =
              ((some w).bind fun w => (wordsOf v).map fun q => (w :: q.1, q.2)).map
                fun p => (r.words ++ p.1, p.2) := by
            rw [List.nil_append, Option.bind_some, Option.map_map]
            simp only [Function.comp_def, List.append_assoc, List.singleton_append]
          simp only [hsum, hsame] at hgoes
          exact goes_cons hcall hgoes

/-- The words up to the end of their item. -/
theorem goes_params (hat : At .queryValueP h r) (hnil : r.words = []) {v : List UInt8}
    (hv : ∀ c ∈ v, endsItem c = false) {e : UInt8} (he : endsItem e = true) :
    Goes urlHandler (At .queryName) h (v ++ [e])
      ((paramWords v).map fun ws => { r with words := ws }) := by
  have hroom : 8 * r.words.length + ([] : List UInt8).length ≤ 64 := by
    rw [hnil]
    decide
  have hgoes := goes_words hat.toGathers hat.terminated (by decide) hroom hv
  rw [hnil] at hgoes
  simp only [List.length_nil, Nat.mul_zero, Nat.zero_add, List.nil_append] at hgoes
  have hend : ∀ (a : List UInt32 × List UInt8) h', Gathers .queryValueP h' { r with words := a.1 } a.2 ∧
      Terminated h'.content r.host → Goes urlHandler (At .queryName) h' [e]
        (if a.2 = [] then some { r with words := a.1 } else none) := by
    rintro ⟨ws, rest⟩ h' ⟨hg, hterm⟩
    have hcall : urlHandler h' e = h'.endParams := by
      rw [hg.toInQuery.call (by decide) e]
      simp only [SettingHeader.queryChar, he, Bool.not_true, Bool.false_eq_true, if_false]
    unfold SettingHeader.endParams at hcall
    rw [hg.binparser] at hcall
    by_cases hempty : rest = []
    · rw [if_pos hempty]
      subst hempty
      exact goes_call hcall ⟨⟨⟨hg.prefixLen, rfl, hg.contentId⟩, hg.shows.clear, hg.stale, rfl, hg.cval,
        hg.host, hg.params⟩, hterm⟩
    · have hfrag : DbCompiler.hasFragment ⟨rest⟩ = true :=
        decide_eq_true (List.length_pos_iff.mpr hempty)
      rw [hfrag, if_pos rfl] at hcall
      rw [if_neg hempty]
      exact goes_refused hcall []
  have hrun := hgoes.append hend
  have height : sizeOfSetupParam = 8 := rfl
  have hsame : (if 64 < v.length then none else (wordsOf v).map fun p => (p.1, p.2)).bind
      (fun a => if a.2 = [] then some { r with words := a.1 } else none) =
      (paramWords v).map fun ws => { r with words := ws } := by
    rw [paramWords]
    cases hw : wordsOf v with
    | none => rw [Option.map_none, ite_self, Option.bind_none, Option.bind_none, Option.map_none]
    | some p =>
      have hlen := Vm.length_of_wordsOf hw
      rw [Option.map_some, Option.bind_some]
      by_cases hlong : 64 < v.length
      · have hno : ¬(p.2 = [] ∧ p.1.length ≤ sizeOfSetupParam) := by
          rintro ⟨hempty, hfits⟩
          rw [hempty, List.length_nil] at hlen
          omega
        rw [if_pos hlong, if_neg hno]
        rfl
      · rw [if_neg hlong, Option.bind_some]
        by_cases hempty : p.2 = []
        · have hfits : p.1.length ≤ sizeOfSetupParam := by omega
          rw [if_pos hempty, if_pos ⟨hempty, hfits⟩]
          rfl
        · rw [if_neg hempty, if_neg fun h => hempty h.1]
          rfl
  rwa [hsame] at hrun

theorem goes_value (hat : AtValue h r) {v : List UInt8} (hv : ∀ c ∈ v, endsItem c = false)
    {e : UInt8} (he : endsItem e = true) :
    Goes urlHandler (At .queryName) h (v ++ [e]) (r.value v) := by
  obtain ⟨hat, hp, hh⟩ := hat
  unfold valueSt at hat
  unfold Reading.value
  by_cases hkey : r.stale = pKey
  · rw [if_pos hkey] at hat ⊢
    exact goes_params hat (hp hkey) hv he
  · rw [if_neg hkey] at hat ⊢
    by_cases hkey' : r.stale = cKey
    · rw [if_pos hkey'] at hat ⊢
      exact goes_command hat hkey' hv he
    · rw [if_neg hkey'] at hat ⊢
      by_cases hkey'' : r.stale = hostKey
      · rw [if_pos hkey''] at hat ⊢
        exact goes_host hat (hh hkey'') hv he
      · rw [if_neg hkey''] at hat ⊢
        exact goes_skip hat hv he

/-- What the calls leave of a request for the settings. -/
structure Left (h : SettingHeader) (r : Reading) : Prop where
  contentId : h.contentId = contentIdSetup
  cval : cval h.content = r.cval
  host : HostIs h.content r.host
  terminated : Terminated h.content r.host
  params : ParamsAre h.content r.words

theorem At.left (hat : At st h r) : Left h r :=
  ⟨hat.contentId, hat.cval, hat.host, hat.terminated, hat.params⟩

theorem goes_query (hat : At .queryName h r) (q : List UInt8) :
    Goes urlHandler Left h (q ++ [0]) ((pairs (items q)).foldlM readPair r) := by
  refine goes_pairs (R := At .queryName) (fun _ _ h => h.left) ?_ ?_ hat q
  · intro s a k c v e hat hk hc hv he
    have hsplit : k ++ c :: (v ++ [e]) = (k ++ [c]) ++ (v ++ [e]) := by simp
    have hpair : readPair a (k, some v) = ((readKey a.stale k).map a.begin).bind fun r => r.value v := by
      rw [Option.bind_map]
      rfl
    rw [hsplit, hpair]
    exact (goes_key hat hk hc).append fun r' s' hat' => goes_value hat' hv he
  · intro s a k hat hk
    exact (goes_key hat hk rfl).mono fun _ _ hat' => hat'.left

/-- In front of the path. -/
structure AtPath (h : SettingHeader) : Prop where
  prefixLen : ¬h.prefixLen < 0
  astate : h.astate = .path
  shows : h.tstr.Shows 15 []
  str : h.tstr.str = []
  binparser : h.binparser = ⟨[]⟩

theorem getMatchId_setup (path : List UInt8) : getMatchId path urlTbl contentIdUnknown =
    if path = setupApi then contentIdSetup else contentIdUnknown := by
  rw [getMatchId, urlTbl]
  by_cases hp : path = setupApi
  · rw [if_pos hp, List.find?_cons_of_pos (by simpa using hp.symm)]
    rfl
  · rw [if_neg hp, List.find?_cons_of_neg (by simpa using fun h => hp h.symm)]
    rfl

/-- Behind the path of the settings nothing is asked for; another path is remembered as unknown. -/
def BehindPath (path : List UInt8) (h : SettingHeader) : Prop :=
  if path = setupApi then At .queryName h .first
  else ¬h.prefixLen < 0 ∧ h.astate ≠ .path ∧ h.contentId = contentIdUnknown

theorem goes_path (hat : AtPath h) {path : List UInt8} (hp : ∀ c ∈ path, endsPath c = false) {c : UInt8}
    (hc : endsPath c = true) :
    Goes urlHandler (fun h _ => BehindPath path h) h (path ++ [c])
      (if 15 < path.length then none else some ()) := by
  have hput : ∀ (t : CStr) (c : UInt8), endsPath c = false → urlHandler { h with tstr := t } c =
      match t.put c with
      | none => (false, { h with tstr := t })
      | some t' => (true, { h with tstr := t' }) := by
    intro t c hc
    rw [urlHandler, if_neg hat.prefixLen, if_pos hat.astate]
    simp only [hc, Bool.not_false, if_true, SettingHeader.put]
  refine CStr.Shows.goes (fun t => { h with tstr := t }) hput hat.shows hp (fun hlong => ?_) ?_
  · rw [List.length_nil, Nat.zero_add] at hlong
    rw [if_pos hlong]
  · intro hfits t ht hnil
    rw [List.length_nil, Nat.zero_add] at hfits
    rw [if_neg (not_lt.mpr hfits)]
    have hstr : t.str = path := by
      cases path with
      | nil => rw [hnil rfl, hat.str]
      | cons d path =>
        have hz : ∀ c ∈ d :: path, c ≠ 0 := fun c hc h0 => absurd (hp c hc) (by rw [h0]; decide)
        rw [ht.str_eq (List.cons_ne_nil _ _), List.nil_append, cString_of_ne_zero hz]
    have hcall : urlHandler { h with tstr := t } c =
        (true, ({ h with tstr := t } : SettingHeader).endPath) := by
      rw [urlHandler, if_neg hat.prefixLen, if_pos hat.astate, hc, Bool.not_true,
        if_neg Bool.false_ne_true]
    refine goes_call hcall ?_
    unfold BehindPath SettingHeader.endPath
    simp only [hstr, getMatchId_setup]
    by_cases hsetup : path = setupApi
    · have hshow : t.clear.str = setupApi := hstr.trans hsetup
      simp only [if_pos hsetup, if_true]
      refine ⟨⟨⟨hat.prefixLen, rfl, rfl⟩, ht.clear, hshow, hat.binparser, u32_store32 _ _ _, ?_, ?_⟩,
        fun hne => absurd rfl hne⟩
      · refine (hostIs_nil (store16 h.content 0 0)).congr fun k _ hk => ?_
        show store32 _ _ _ k = _
        rw [store32, patch_outside (by omega)]
      · refine (paramsAre_nil h.content).congr fun k hk => ?_
        show store32 (store16 _ _ _) _ _ k = _
        rw [store32, patch_outside (by omega), store16, patch_outside (by omega)]
    · have hid : contentIdUnknown ≠ contentIdSetup := by decide
      simp only [if_neg hsetup, if_neg hid]
      exact ⟨hat.prefixLen, ParseSt.noConfusion, trivial⟩

/-- The root and the two slashes are passed over. -/
theorem goes_root (old : SettingHeader) (root : List UInt8) :
    Goes urlHandler (fun h (_ : Unit) => AtPath h) (start old root) (chSlash :: (root ++ [chSlash]))
      (some ()) := by
  have hcount := runUrl_counted (f := urlHandler) (fun n => { start old root with prefixLen := n })
    (fun n c hn => by rw [urlHandler, if_pos hn]) (chSlash :: (root ++ [chSlash]))
  have hlen : -((chSlash :: (root ++ [chSlash])).length : Int) = (start old root).prefixLen := by
    show _ = -((root.length : Int) + 2)
    rw [List.length_cons, List.length_append, List.length_singleton]
    omega
  rw [hlen] at hcount
  exact ⟨_, hcount, Int.lt_irrefl 0, rfl, CStr.shows_ofSize 15, rfl, rfl⟩

/-- What the handler makes of a URL of the settings, the pairs of its query read one after the
other. -/
theorem goes_url (old : SettingHeader) {root url rest : List UInt8} (hroot : UnderRoot root url rest)
    (hpath : pathOf rest = setupApi) : Goes urlHandler Left (start old root) (url ++ [0])
      ((pairs (itemsOf rest)).foldlM readPair .first) := by
  have hsplit : url ++ [0] = (chSlash :: (root ++ [chSlash])) ++ (rest ++ [0]) := by
    rw [hroot.url_eq]
    simp
  have hfits : ¬15 < setupApi.length := by decide
  rw [hsplit]
  refine (goes_root old root).append (g := fun _ => (pairs (itemsOf rest)).foldlM readPair .first)
    fun _ h hat => ?_
  obtain ⟨hall, hitems⟩ | ⟨c, query, hc, hcut, hitems⟩ := rest_cases rest
  · have hgoes := goes_path hat (endsPath_pathOf rest) (c := 0) rfl
    rw [hpath, if_neg hfits] at hgoes
    rw [hitems, ← hall, hpath]
    exact hgoes.map fun h' _ hat' => (show At .queryName h' .first from hat').left
  · have hgoes := goes_path hat (endsPath_pathOf rest) hc
    rw [hpath, if_neg hfits] at hgoes
    have hcut' : rest ++ [0] = (setupApi ++ [c]) ++ (query ++ [0]) := by
      conv_lhs => rw [hcut, hpath]
      simp
    rw [hcut', hitems]
    exact hgoes.append fun _ h' hat' => goes_query (show At .queryName h' .first from hat') query

/-- Under another path nothing is served. -/
theorem contentId_of_accepted (old : SettingHeader) {root url rest : List UInt8}
    (hroot : UnderRoot root url rest) (hpath : pathOf rest ≠ setupApi) {h : SettingHeader}
    (hrun : runUrl urlHandler (start old root) (url ++ [0]) = (true, h)) :
    h.contentId = contentIdUnknown := by
  have hsplit : url ++ [0] = (chSlash :: (root ++ [chSlash])) ++ (rest ++ [0]) := by
    rw [hroot.url_eq]
    simp
  have hgoes : ∃ o : Option Unit, Goes urlHandler (fun h _ => h.contentId = contentIdUnknown)
      (start old root) (url ++ [0]) o := by
    rw [hsplit]
    obtain ⟨hall, -⟩ | ⟨c, query, hc, hcut, -⟩ := rest_cases rest
    · refine ⟨_, (goes_root old root).append
        (g := fun _ => if 15 < rest.length then none else some ()) fun _ h hat => ?_⟩
      have hend := goes_path hat (endsPath_pathOf rest) (c := 0) rfl
      rw [hall] at hend hpath
      refine hend.mono fun h' _ hat' => ?_
      rw [BehindPath, if_neg hpath] at hat'
      exact hat'.2.2
    · have hcut' : rest ++ [0] = (pathOf rest ++ [c]) ++ (query ++ [0]) := by
        conv_lhs => rw [hcut]
        simp
      rw [hcut']
      refine ⟨_, (goes_root old root).append (g := fun _ => Option.bind _ fun _ => none) fun _ h hat =>
        (goes_path hat (endsPath_pathOf rest) hc).append fun _ h' hat' => ?_⟩
      -- the first character of the query is refused
      rw [BehindPath, if_neg hpath] at hat'
      obtain ⟨hskip, hst, hid⟩ := hat'
      have hcall : ∀ d, urlHandler h' d = (false, h') := by
        intro d
        rw [urlHandler, if_neg hskip, if_neg hst, if_pos (by rw [hid]; decide)]
      cases query with
      | nil => exact goes_refused (hcall 0) []
      | cons d query => exact goes_refused (hcall d) _
  obtain ⟨o, hgoes⟩ := hgoes
  obtain ⟨_, -, hid⟩ := hgoes.of_accepted hrun
  exact hid

end ModMiMicSetting

end MiMic.Httpd
