import MiMic.Config.Update
import MiMic.Httpd.SettingUrl

/-!
# The configuration that a settings request writes

`setup_proc` makes the flash image in the union that the URL was read into. What is written is
what `NyLPC_cNetConfig` reads back at the next start.
-/
namespace MiMic.Httpd

open Config Flash Http Http.UrlQuery
open Http.BasicHeaderParser (StreamResult)
open ModFileIoBaseClass (UnderRoot)
open Verif.NorFlash (Cells patch patch_inside patch_outside)
open Vm (DbCompiler wordsOf)

namespace ModMiMicSetting

/-- The stores of `setup_proc`, in their order: the port is taken from the word that it is stored
over, and the padding lies over the command. -/
def memimg (m : Cells) : MiMicConfigulation :=
  let m := store32 m 0 0xffffffff
  let m := store16 m 64 (Memory.u32 m (36 + 4 * 7) >>> 16).toUInt16
  let m := store16 m 66 0xffff
  let m := store32 m 68 0xffffffff
  readConfigulation m 0

/-- The configuration that `setup_proc` gives to `updateConfigulation`, if it comes so far. -/
def setupImage (m : Cells) : Option MiMicConfigulation :=
  if cval m ≠ qvalCUpdate then none
  else if (paramLen m).toNat ≠ sizeOfSetupParam ∨ (hostLen m).toNat < 1 then none
  else if (memimg m).httpPort = 0 then none
  else some (memimg m)

def imageOf (h : SettingHeader) : Option MiMicConfigulation :=
  if h.contentId = contentIdSetup then setupImage h.content else none

/-- What `setup_proc` looks at, with how the update of the flash comes out. -/
def queryOf (m : Cells) (updated : Bool) : SettingQuery :=
  if cval m = qvalCGet then .get
  else if cval m = qvalCUpdate then
    .update (paramLen m).toNat (hostLen m).toNat (memimg m).httpPort updated
  else .unknown

/-- The outcome of the header parser as `execute` takes it. -/
def parsed (r : StreamResult SettingHeader) (updated : Bool) :
    Option (BasicHeader × Option SettingQuery) :=
  if !r.ok then none
  else some (r.parser.out,
    if r.parser.user.contentId = contentIdSetup then some (queryOf r.parser.user.content updated)
    else none)

/-- What a request writes to the flash. -/
def flashed (method : HttpMethod) (r : StreamResult SettingHeader) : Option MiMicConfigulation :=
  if !r.ok then none
  else if method ≠ .get ∧ method ≠ .head then none
  else imageOf r.parser.user

/-- The values of a key, one behind the other; an item without an equals sign has none. -/
def valuesOf (key : List UInt8) (its : List (List UInt8)) : List (List UInt8) :=
  its.filterMap fun it => if keyOf it = key then valueOf it else none

/-- The last host name and the last words of a query, where every one of them is well formed. -/
structure Asks (its : List (List UInt8)) (host : List UInt8) (ws : List UInt32) : Prop where
  hosts : ∀ v ∈ valuesOf hostKey its, HostText v
  last : (valuesOf hostKey its).getLast? = some host
  host_ne : host ≠ []
  params : ∀ v ∈ valuesOf pKey its, ∃ vs, wordsOf v = some (vs, []) ∧ vs.length ≤ sizeOfSetupParam
  words : ∃ txt, (valuesOf pKey its).getLast? = some txt ∧ wordsOf txt = some (ws, [])
  eight : ws.length = sizeOfSetupParam
  port : portNumber ws ≠ 0

/-- A URL that has a configuration written asks for a host name and for words, and `update` reads
them back. -/
def RoundTrips (old : SettingHeader) (root url rest : List UInt8) : Prop :=
  ∀ h img, runUrl urlHandler (start old root) (url ++ [0]) = (true, h) → imageOf h = some img →
    ∃ host ws, Asks (itemsOf rest) host ws ∧ TcNetConfig.update img = settingsOf host ws

/-- The pairs of a query are refused or ask for no update, or they give the settings that the query
asks for. -/
def ReadsRight (its : List (List UInt8)) : Prop :=
  ∀ r, (pairs its).foldlM readPair .first = some r → r.cval = qvalCUpdate →
    r.words.length = sizeOfSetupParam → r.host ≠ [] → portNumber r.words ≠ 0 →
    ∃ host ws, Asks its host ws ∧ settingsOf r.host r.words = settingsOf host ws

/-- Every item has a key and an equals sign, so that its value is its own. -/
structure InStep (its : List (List UInt8)) : Prop where
  equals : ∀ it ∈ its, chEqual ∈ it
  key : ∀ it ∈ its, keyOf it ≠ []

variable {m : Cells} {host : List UInt8} {ws : List UInt32} {h : SettingHeader} {r : Reading}

theorem cString_of_front {l x : List UInt8} (hz : ∀ c ∈ x, c ≠ 0)
    (hx : ∀ (i : Nat) c, x[i]? = some c → l[i]? = some c) (hend : l[x.length]? = some 0) : cString l = x := by
  induction x generalizing l with
  | nil =>
    cases l with
    | nil => cases hend
    | cons d l =>
      rw [List.length_nil, List.getElem?_cons_zero] at hend
      rw [Option.some.inj hend]
      rfl
  | cons c x ih =>
    cases l with
    | nil => cases hend
    | cons d l =>
      have hd : d = c := Option.some.inj (hx 0 c rfl)
      have htail := ih (l := l) (fun c hc => hz c (List.mem_cons_of_mem _ hc))
        (fun i e hi => hx (i + 1) e hi) hend
      have hne : (c != 0) = true := bne_iff_ne.mpr (hz c List.mem_cons_self)
      rw [hd]
      show (c :: l).takeWhile (· != 0) = c :: x
      rw [List.takeWhile_cons_of_pos (p := (· != 0)) hne]
      exact congrArg (c :: ·) htail

theorem hostChar_ne_zero {c : UInt8} (hc : hostChar c = true) : c ≠ 0 := by
  rintro rfl
  exact absurd hc (by decide)

theorem ParamsAre.wordAt (hp : ParamsAre m ws) (height : ws.length = sizeOfSetupParam) {i : Nat}
    (hi : i < sizeOfSetupParam) : Memory.u32 m (36 + 4 * i) = wordAt ws i := by
  have hlt : i < ws.length := by omega
  rw [hp.word i _ (List.getElem?_eq_getElem hlt), Config.wordAt,
    List.getD_eq_getElem?_getD, List.getElem?_eq_getElem hlt, Option.getD_some]

theorem upperHalf_eq (w : UInt32) : (w >>> 16).toUInt16 = UInt16.ofNat (w.toNat / 2 ^ 16) := by
  apply UInt16.toNat_inj.mp
  rw [UInt32.toNat_toUInt16, UInt32.toNat_shiftRight, UInt16.toNat_ofNat']
  show w.toNat >>> 16 % 2 ^ 16 = _
  rw [Nat.shiftRight_eq_div_pow]

/-- The image holds the host name and the words that were received. -/
theorem memimg_stores (hhost : HostIs m host) (hterm : Terminated m host) (hne : host ≠ [])
    (hp : ParamsAre m ws) (height : ws.length = sizeOfSetupParam) : HasSettings (memimg m) host ws := by
  have hshort : host.length < 32 := hhost.text.2
  have hword : ∀ i < 7, ∀ v : UInt16, Memory.u32 (store32 (store16 (store16 (store32 m 0 0xffffffff) 64 v)
      66 0xffff) 68 0xffffffff) (36 + 4 * i) = wordAt ws i := by
    intro i hi v
    rw [store32, u32_patch (by omega), store16, u32_patch (by omega), store16, u32_patch (by omega),
      store32, u32_patch (by omega)]
    exact hp.wordAt height (show i < 8 by omega)
  have hname : ∀ i : Fin Flash.hostnameLen, (memimg m).hostname i = m (4 + i) := by
    intro i
    have hi : i.val < 32 := i.isLt
    show store32 (store16 (store16 (store32 m 0 0xffffffff) 64 _) 66 0xffff) 68 0xffffffff (0 + 4 + i) = _
    rw [store32, patch_outside (by omega), store16, patch_outside (by omega), store16,
      patch_outside (by omega), store32, patch_outside (by omega), Nat.zero_add]
  refine ⟨?_, hword 0 (by decide) _, hword 1 (by decide) _, hword 2 (by decide) _,
    hword 3 (by decide) _, hword 4 (by decide) _, hword 5 (by decide) _, hword 6 (by decide) _, ?_⟩
  · have hat : ∀ i < 32, (List.ofFn (memimg m).hostname)[i]? = some (m (4 + i)) := by
      intro i hi
      rw [List.getElem?_ofFn, dif_pos hi, hname]
    refine cString_of_front (fun c hc => hostChar_ne_zero (hhost.text.1 c hc)) (fun i c hi => ?_) ?_
    · have hlt := (List.getElem?_eq_some_iff.mp hi).1
      rw [hat i (by omega), hhost.name i c hi]
    · rw [hat _ hshort, hterm hne]
  · have hseven : Memory.u32 (store32 m 0 0xffffffff) (36 + 4 * 7) = wordAt ws 7 := by
      rw [store32, u32_patch (by omega)]
      exact hp.wordAt height (by decide)
    have hport : (memimg m).httpPort =
        (Memory.u32 (store32 m 0 0xffffffff) (36 + 4 * 7) >>> 16).toUInt16 := by
      show Memory.u16 (store32 (store16 (store16 (store32 m 0 0xffffffff) 64 _) 66 0xffff) 68 0xffffffff)
        64 = _
      rw [store32, u16_patch (by omega), store16, u16_patch (by omega), u16_store16]
    rw [hport, hseven, upperHalf_eq, portNumber]

/-- A reading that a configuration is written for. -/
structure Reading.Writes (r : Reading) : Prop where
  cval : r.cval = qvalCUpdate
  eight : r.words.length = sizeOfSetupParam
  host_ne : r.host ≠ []
  port : portNumber r.words ≠ 0

theorem portNumber_lt (ws : List UInt32) : portNumber ws < 2 ^ 16 := by
  have hlt := (wordAt ws 7).toNat_lt
  rw [portNumber]
  omega

theorem imageOf_eq_some (hl : Left h r) {img : MiMicConfigulation} :
    imageOf h = some img ↔ r.Writes ∧ img = memimg h.content := by
  rw [imageOf, if_pos hl.contentId, setupImage, hl.cval, hl.params.len, hl.host.len]
  by_cases hc : r.cval = qvalCUpdate
  · rw [if_neg (not_not.mpr hc)]
    by_cases hgood : r.words.length = sizeOfSetupParam ∧ r.host ≠ []
    · obtain ⟨height, hne⟩ := hgood
      have hpos := List.length_pos_iff.mpr hne
      have hport : (memimg h.content).httpPort = 0 ↔ portNumber r.words = 0 := by
        rw [(memimg_stores hl.host hl.terminated hne hl.params height).httpPort, ← UInt16.toNat_inj,
          UInt16.toNat_ofNat', Nat.mod_eq_of_lt (portNumber_lt _)]
        rfl
      rw [if_neg (by omega)]
      by_cases hzero : portNumber r.words = 0
      · rw [if_pos (hport.mpr hzero)]
        exact iff_of_false (fun h => nomatch h) fun h => h.1.port hzero
      · rw [if_neg (mt hport.mp hzero), Option.some_inj]
        exact ⟨fun h => ⟨⟨hc, height, hne, hzero⟩, h.symm⟩, fun h => h.2.symm⟩
    · have hbad : r.words.length ≠ sizeOfSetupParam ∨ r.host.length < 1 := by
        by_contra hno
        rw [not_or, not_not, not_lt] at hno
        exact hgood ⟨hno.1, List.length_pos_iff.mp hno.2⟩
      rw [if_pos hbad]
      exact iff_of_false (fun h => nomatch h) fun h => hgood ⟨h.1.eight, h.1.host_ne⟩
  · rw [if_pos hc]
    exact iff_of_false (fun h => nomatch h) fun h => hc h.1.cval

theorem update_left (hl : Left h r) (hw : r.Writes) :
    TcNetConfig.update (memimg h.content) = settingsOf r.host r.words :=
  update_eq (memimg_stores hl.host hl.terminated hw.host_ne hl.params hw.eight)

theorem valuesOf_cons {it v : List UInt8} (hv : valueOf it = some v) (key : List UInt8)
    (its : List (List UInt8)) : valuesOf key (it :: its) =
      if keyOf it = key then v :: valuesOf key its else valuesOf key its := by
  rw [valuesOf, List.filterMap_cons, hv]
  by_cases hkey : keyOf it = key
  · rw [if_pos hkey, if_pos hkey]
    rfl
  · rw [if_neg hkey, if_neg hkey]
    rfl

/-- The value of a key of its own changes what the key is for, and nothing else. -/
theorem readPair_value {key v : List UInt8} {r r' : Reading} (hkey : key ≠ [])
    (h : readPair r (key, some v) = some r') :
    (if key = hostKey then HostText v ∧ r'.host = v else r'.host = r.host) ∧
      (if key = pKey then paramWords v = some r'.words else r'.words = r.words) := by
  obtain ⟨k, hread, hvalue⟩ := Option.bind_eq_some_iff.mp h
  have hk : k = key := by
    rw [readKey, if_neg hkey] at hread
    split at hread
    · cases hread
    · exact (Option.some.inj hread).symm
  subst hk
  unfold Reading.value at hvalue
  rw [(begin_cases r k).1] at hvalue
  unfold Reading.begin at hvalue
  by_cases hp : k = pKey
  · have hh : ¬k = hostKey := by
      rw [hp]
      decide
    simp only [if_pos hp] at hvalue
    obtain ⟨ws, hws, rfl⟩ := Option.map_eq_some_iff.mp hvalue
    rw [if_neg hh, if_pos hp]
    exact ⟨rfl, hws⟩
  · simp only [if_neg hp] at hvalue
    rw [if_neg hp]
    by_cases hh : k = hostKey
    · have hc : ¬k = cKey := by
        rw [hh]
        decide
      simp only [if_neg hc, if_pos hh] at hvalue
      split at hvalue
      · next htext =>
        obtain rfl := Option.some.inj hvalue
        rw [if_pos hh]
        exact ⟨⟨htext, rfl⟩, rfl⟩
      · cases hvalue
    · simp only [if_neg hh] at hvalue
      rw [if_neg hh]
      split at hvalue
      · obtain ⟨id, -, rfl⟩ := Option.map_eq_some_iff.mp hvalue
        exact ⟨rfl, rfl⟩
      · obtain rfl := Option.some.inj hvalue
        exact ⟨rfl, rfl⟩

/-- Items in step are read one by one, and the last of a key is the one that counts. -/
theorem reads_inStep {its : List (List UInt8)} (hs : InStep its) {r r' : Reading}
    (hread : (pairs its).foldlM readPair r = some r') :
    (∀ v ∈ valuesOf hostKey its, HostText v) ∧ (valuesOf hostKey its).getLast?.getD r.host = r'.host ∧
      (∀ v ∈ valuesOf pKey its, ∃ vs, paramWords v = some vs) ∧
      (valuesOf pKey its).getLast?.elim (some r.words) paramWords = some r'.words := by
  induction its generalizing r with
  | nil =>
    rw [pairs, List.foldlM_nil] at hread
    obtain rfl := Option.some.inj hread
    exact ⟨fun v hv => absurd hv List.not_mem_nil, rfl, fun v hv => absurd hv List.not_mem_nil, rfl⟩
  | cons it its ih =>
    cases hv : valueOf it with
    | none => exact absurd (hs.equals it List.mem_cons_self) (valueOf_none.mp hv)
    | some v =>
      rw [pairs_value hv, List.foldlM_cons] at hread
      obtain ⟨r1, hpair, hrest⟩ := Option.bind_eq_some_iff.mp hread
      obtain ⟨hhost, hwords⟩ := readPair_value (hs.key it List.mem_cons_self) hpair
      obtain ⟨hall, hlast, hparams, hlast'⟩ := ih
        ⟨fun it hit => hs.equals it (List.mem_cons_of_mem _ hit),
          fun it hit => hs.key it (List.mem_cons_of_mem _ hit)⟩ hrest
      rw [valuesOf_cons hv, valuesOf_cons hv]
      refine ⟨?_, ?_, ?_, ?_⟩
      · intro w hw
        split at hw
        · next hkey =>
          rw [if_pos hkey] at hhost
          rcases List.mem_cons.mp hw with rfl | hw
          · exact hhost.1
          · exact hall w hw
        · exact hall w hw
      · split
        · next hkey =>
          rw [if_pos hkey] at hhost
          rw [List.getLast?_cons, Option.getD_some, ← hlast, hhost.2]
        · next hkey =>
          rw [if_neg hkey] at hhost
          rw [← hlast, hhost]
      · intro w hw
        split at hw
        · next hkey =>
          rw [if_pos hkey] at hwords
          rcases List.mem_cons.mp hw with rfl | hw
          · exact ⟨_, hwords⟩
          · exact hparams w hw
        · exact hparams w hw
      · split
        · next hkey =>
          rw [if_pos hkey] at hwords
          rw [List.getLast?_cons, Option.elim_some, ← hlast', ← hwords]
          cases (valuesOf pKey its).getLast? <;> rfl
        · next hkey =>
          rw [if_neg hkey] at hwords
          rw [← hlast', hwords]

theorem paramWords_eq_some {v : List UInt8} {vs : List UInt32} :
    paramWords v = some vs ↔ wordsOf v = some (vs, []) ∧ vs.length ≤ sizeOfSetupParam := by
  rw [paramWords, Option.bind_eq_some_iff]
  constructor
  · rintro ⟨⟨ws, rest⟩, hw, hif⟩
    split at hif
    · next hgood =>
      obtain ⟨rfl, hfits⟩ : rest = [] ∧ ws.length ≤ sizeOfSetupParam := hgood
      obtain rfl : ws = vs := Option.some.inj hif
      exact ⟨hw, hfits⟩
    · cases hif
  · rintro ⟨hw, hfits⟩
    exact ⟨_, hw, if_pos ⟨rfl, hfits⟩⟩

theorem InStep.readsRight {its : List (List UInt8)} (hs : InStep its) : ReadsRight its := by
  intro r hread hc height hne hport
  obtain ⟨hhosts, hlast, hparams, hlast'⟩ := reads_inStep hs hread
  refine ⟨r.host, r.words, ⟨hhosts, ?_, hne, fun v hv => ?_, ?_, height, hport⟩, rfl⟩
  · cases hget : (valuesOf hostKey its).getLast? with
    | none =>
      rw [hget] at hlast
      exact absurd hlast.symm hne
    | some v =>
      rw [hget] at hlast
      rw [← hlast, Option.getD_some]
  · obtain ⟨vs, hvs⟩ := hparams v hv
    exact ⟨vs, paramWords_eq_some.mp hvs⟩
  · cases hget : (valuesOf pKey its).getLast? with
    | none =>
      rw [hget] at hlast'
      have hnil : [] = r.words := Option.some.inj hlast'
      rw [← hnil] at height
      cases height
    | some txt =>
      rw [hget] at hlast'
      exact ⟨txt, rfl, (paramWords_eq_some.mp hlast').1⟩

theorem RoundTrips.readsRight {old : SettingHeader} {root url rest : List UInt8}
    (hall : RoundTrips old root url rest) (hroot : UnderRoot root url rest)
    (hpath : pathOf rest = setupApi) : ReadsRight (itemsOf rest) := by
  intro r hread hc height hne hport
  have hgoes := goes_url old hroot hpath
  rw [hread] at hgoes
  obtain ⟨h, hrun, hl⟩ := hgoes
  have hw : r.Writes := ⟨hc, height, hne, hport⟩
  obtain ⟨host, ws, hasks, heq⟩ := hall h _ hrun ((imageOf_eq_some hl).mpr ⟨hw, rfl⟩)
  exact ⟨host, ws, hasks, (update_left hl hw).symm.trans heq⟩

theorem ReadsRight.roundTrips {rest : List UInt8} (hright : ReadsRight (itemsOf rest))
    (old : SettingHeader) {root url : List UInt8} (hroot : UnderRoot root url rest)
    (hpath : pathOf rest = setupApi) : RoundTrips old root url rest := by
  intro h img hrun himg
  obtain ⟨r, hread, hl⟩ := (goes_url old hroot hpath).of_accepted hrun
  obtain ⟨hw, rfl⟩ := (imageOf_eq_some hl).mp himg
  obtain ⟨host, ws, hasks, heq⟩ := hright r hread hw.cval hw.eight hw.host_ne hw.port
  exact ⟨host, ws, hasks, (update_left hl hw).trans heq⟩

/-- A request that only asks for the settings in force. -/
def AsksGet (h : SettingHeader) : Prop := h.contentId = contentIdSetup ∧ cval h.content = qvalCGet

theorem setupProc_error (c : Responder) (texts : SettingTexts) {m : Cells} (updated : Bool)
    (hget : cval m ≠ qvalCGet) (himage : setupImage m = none) :
    ∃ reason, setupProc c texts (queryOf m updated) = c.sendErrorResponse reason := by
  rw [queryOf, if_neg hget]
  unfold setupImage at himage
  by_cases hc : cval m = qvalCUpdate
  · rw [if_neg (not_not.mpr hc)] at himage
    rw [if_pos hc, setupProc]
    by_cases hlen : (paramLen m).toNat ≠ sizeOfSetupParam ∨ (hostLen m).toNat < 1
    · exact ⟨500, if_pos hlen⟩
    · rw [if_neg hlen] at himage ⊢
      by_cases hport : (memimg m).httpPort = 0
      · exact ⟨500, if_pos hport⟩
      · rw [if_neg hport] at himage
        cases himage
  · rw [if_neg hc]
    exact ⟨400, rfl⟩

/-- A request that writes nothing and does not ask for the settings is answered with an error. -/
theorem execute_error (c : Responder) (texts : SettingTexts) {res : StreamResult SettingHeader}
    (updated : Bool) (hnone : flashed c.method res = none) (hget : ¬AsksGet res.parser.user) :
    ∃ c' reason ret, execute c texts (parsed res updated) =
      (Responder.sendErrorResponse c' reason).map (·, ret) := by
  have hmethod : c.setReqStatusParsed.method = c.method := rfl
  unfold flashed at hnone
  unfold execute parsed
  by_cases hok : res.ok = true
  · rw [hok, Bool.not_true, if_neg Bool.false_ne_true] at hnone ⊢
    by_cases hm : c.method ≠ .get ∧ c.method ≠ .head
    · exact ⟨_, _, _, if_pos hm⟩
    · rw [if_neg hm] at hnone
      simp only [hmethod, if_neg hm]
      by_cases hid : res.parser.user.contentId = contentIdSetup
      · rw [imageOf, if_pos hid] at hnone
        obtain ⟨reason, hreason⟩ := setupProc_error (c.setReqStatusParsed.followHeader res.parser.out) texts
          updated (fun hc => hget ⟨hid, hc⟩) hnone
        simp only [if_pos hid, hreason]
        exact ⟨_, _, _, rfl⟩
      · simp only [if_neg hid]
        exact ⟨_, _, _, rfl⟩
  · rw [Bool.eq_false_iff.mpr hok, Bool.not_false, if_pos rfl]
    exact ⟨_, _, _, rfl⟩

/-- What is written is what the URL asks for just when the pairs of its query give the last host
name and the last words. An item without an equals sign takes the next one for its value, and an
empty key is read as the key before it. Where nothing is written the answer is an error. -/
theorem setting_roundTrips_iff (old : SettingHeader) {root url rest : List UInt8}
    (hroot : UnderRoot root url rest) :
    (RoundTrips old root url rest ↔ pathOf rest ≠ setupApi ∨ ReadsRight (itemsOf rest)) ∧
      (InStep (itemsOf rest) → ReadsRight (itemsOf rest)) ∧
      ∀ (out : BasicHeader) (m : HttpMethod) (pushed : List UInt8) (reads : List (List UInt8)),
        UrlRequest url pushed reads →
        (∀ img, flashed m (moduleParse urlHandler out (start old root) m pushed reads) = some img →
          ∃ h, runUrl urlHandler (start old root) (url ++ [0]) = (true, h) ∧ imageOf h = some img) ∧
        ∀ (c : Responder) (texts : SettingTexts) (updated : Bool), c.method = m →
          flashed m (moduleParse urlHandler out (start old root) m pushed reads) = none →
          ¬AsksGet (runUrl urlHandler (start old root) (url ++ [0])).2 →
          ∃ c' reason ret, execute c texts
            (parsed (moduleParse urlHandler out (start old root) m pushed reads) updated) =
              (Responder.sendErrorResponse c' reason).map (·, ret) := by
  refine ⟨?_, InStep.readsRight, fun out m pushed reads hreq => ?_⟩
  · by_cases hpath : pathOf rest = setupApi
    · rw [or_iff_right (not_not.mpr hpath)]
      exact ⟨fun hall => hall.readsRight hroot hpath, fun hright => hright.roundTrips old hroot hpath⟩
    · refine iff_of_true (fun h img hrun himg => ?_) (Or.inl hpath)
      have hid := contentId_of_accepted old hroot hpath hrun
      rw [imageOf, if_neg (by rw [hid]; decide)] at himg
      cases himg
  · obtain ⟨huser, hok⟩ := moduleParse_url urlHandler out (start old root) m hreq
    refine ⟨fun img himg => ?_, fun c texts updated hm hnone hget => ?_⟩
    · unfold flashed at himg
      split at himg
      · cases himg
      · next hdone =>
        split at himg
        · cases himg
        · rw [huser] at himg
          exact ⟨_, Prod.ext (hok (by simpa using hdone)) rfl, himg⟩
    · subst hm
      exact execute_error c texts updated hnone (huser ▸ hget)

/-- A header as the stack may hold it. -/
def sampleHeader : SettingHeader :=
  ⟨0, 0, .path, 0, .ofSize 16, DbCompiler.init, fun _ => 0xa5⟩

/-- The words of `p` in the URLs below; the port is 80. -/
def sampleWords : List UInt32 :=
  [0x02010203, 0x04050000, 0, 0xc0a80002, 0xffffff00, 0xc0a800fe, 3, 0x00500000]

def sampleUpdate : List UInt8 :=
  ascii "setup.api?c=update&p=" ++ (Vm.hexText sampleWords ++ ascii "&host=a")

theorem pairs_sample (tail : List UInt8) (later : List (List UInt8 × Option (List UInt8)))
    (h : pairs (itemsOf (sampleUpdate ++ tail)) =
      [(cKey, some (ascii "update")), (pKey, some (Vm.hexText sampleWords)), (hostKey, some (ascii "a"))] ++
        later) : (pairs (itemsOf (sampleUpdate ++ tail))).foldlM readPair .first =
      later.foldlM readPair ⟨hostKey, qvalCUpdate, ascii "a", sampleWords⟩ := by
  have hwords : paramWords (Vm.hexText sampleWords) = some sampleWords :=
    paramWords_eq_some.mpr ⟨Vm.wordsOf_hexText _, by decide⟩
  have hc : readPair .first (cKey, some (ascii "update")) =
      some ⟨ascii "update", qvalCUpdate, [], []⟩ := by decide
  have hp : readPair ⟨ascii "update", qvalCUpdate, [], []⟩ (pKey, some (Vm.hexText sampleWords)) =
      some ⟨pKey, qvalCUpdate, [], sampleWords⟩ := by
    show (paramWords (Vm.hexText sampleWords)).map _ = _
    rw [hwords]
    rfl
  have hhost : readPair ⟨pKey, qvalCUpdate, [], sampleWords⟩ (hostKey, some (ascii "a")) =
      some ⟨hostKey, qvalCUpdate, ascii "a", sampleWords⟩ := by decide
  simp only [h, List.cons_append, List.nil_append, List.foldlM_cons, hc, hp, hhost,
    Option.bind_eq_bind, Option.bind_some]

/-- The sample is written, and read back as it was asked for. -/
theorem setting_roundTrips_update :
    RoundTrips sampleHeader (ascii "setup") (ascii "/setup/" ++ sampleUpdate) sampleUpdate ∧
      ∃ h img, runUrl urlHandler (start sampleHeader (ascii "setup"))
        (ascii "/setup/" ++ sampleUpdate ++ [0]) = (true, h) ∧ imageOf h = some img := by
  have hroot : UnderRoot (ascii "setup") (ascii "/setup/" ++ sampleUpdate) sampleUpdate :=
    ⟨rfl, by decide⟩
  have hstep : InStep (itemsOf sampleUpdate) := ⟨by decide +kernel, by decide +kernel⟩
  obtain ⟨hiff, hright, -⟩ := setting_roundTrips_iff sampleHeader hroot
  refine ⟨hiff.mpr (Or.inr (hright hstep)), ?_⟩
  have hgoes := goes_url sampleHeader hroot (by decide +kernel)
  have hread := pairs_sample [] [] (by decide +kernel)
  rw [List.append_nil] at hread
  rw [hread] at hgoes
  obtain ⟨h, hrun, hl⟩ := hgoes
  exact ⟨h, _, hrun, (imageOf_eq_some hl).mpr ⟨⟨rfl, rfl, by decide, by decide⟩, rfl⟩⟩

/-- The item `foo` takes the second host name for its value. -/
theorem not_setting_roundTrips :
    ¬RoundTrips sampleHeader (ascii "setup") (ascii "/setup/" ++ (sampleUpdate ++ ascii "&foo&host=b"))
      (sampleUpdate ++ ascii "&foo&host=b") := by
  intro hall
  have hroot : UnderRoot (ascii "setup") (ascii "/setup/" ++ (sampleUpdate ++ ascii "&foo&host=b"))
      (sampleUpdate ++ ascii "&foo&host=b") := ⟨rfl, by decide⟩
  have hright := hall.readsRight hroot (by decide +kernel)
  have hread := pairs_sample (ascii "&foo&host=b") [(ascii "foo", some (ascii "host=b"))] (by decide +kernel)
  have hfoo : readPair ⟨hostKey, qvalCUpdate, ascii "a", sampleWords⟩ (ascii "foo", some (ascii "host=b")) =
      some ⟨ascii "foo", qvalCUpdate, ascii "a", sampleWords⟩ := by decide
  rw [List.foldlM_cons, hfoo] at hread
  obtain ⟨host, ws, hasks, heq⟩ := hright _ hread rfl rfl (by decide) (by decide)
  have hlast : (valuesOf hostKey (itemsOf (sampleUpdate ++ ascii "&foo&host=b"))).getLast? =
      some (ascii "b") := by decide +kernel
  have hb : host = ascii "b" := Option.some.inj (hasks.last.symm.trans hlast)
  have hname : ascii "a" = host := congrArg TcNetConfig.hostname heq
  rw [hb] at hname
  exact absurd hname (by decide)

end ModMiMicSetting

end MiMic.Httpd
