import MiMic.Http.UrlEncode
import MiMic.Http.UrlQuery

/-!
# The URL of a file request

`NyLPC_cModFileIoBaseClass` takes the name of an API and a file name from the URL of a request.
One string buffer holds the path, the keys and the decoded names, one after the other.
-/
namespace MiMic.Httpd

open Http Http.UrlQuery
open Http.BasicHeaderParser (StreamResult)

namespace ModFileIoBaseClass

def fnameMax : Nat := 48
def strbufMax : Nat := 48

/-- `ST_PARSE_PATH` to `ST_PARSE_QUERY_VALUE_NAME`. -/
inductive ParseSt
  | path
  | queryName
  | queryValue
  | queryValueName
deriving DecidableEq, Repr

def contentIdUpload : UInt8 := 2
def contentIdCreate : UInt8 := 3
def contentIdRemove : UInt8 := 4
def contentIdUnknown : UInt8 := 0
def qnameIdName : UInt8 := 1
def qnameIdUnknown : UInt8 := 0

def urlTbl : List (List UInt8 × UInt8) :=
  [(ascii "upload.api", contentIdUpload), (ascii "create.api", contentIdCreate),
    (ascii "remove.api", contentIdRemove)]

def nameKey : List UInt8 := ascii "name"

def qnameIdTable : List (List UInt8 × UInt8) := [(nameKey, qnameIdName)]

/-- The three ids that a request is served for. -/
def isApi (id : UInt8) : Bool := id == contentIdUpload || id == contentIdCreate || id == contentIdRemove

/-- `TModFileIoHeader`, of `fname` what was stored at its front. -/
structure FileIoHeader where
  urlencode : UrlEncode
  contentId : UInt8
  qeryNameId : UInt8
  astate : ParseSt
  prefixLen : Int
  tstr : CStr
  fname : List UInt8
deriving DecidableEq, Repr

/-- `NyLPC_cStr_put` into the string buffer; a full one is an error. -/
def FileIoHeader.put (h : FileIoHeader) (c : UInt8) : Bool × FileIoHeader :=
  match h.tstr.put c with
  | none => (false, h)
  | some t => (true, { h with tstr := t })

/-- `urlHandler`. -/
def urlHandler (h : FileIoHeader) (c : UInt8) : Bool × FileIoHeader :=
  if h.prefixLen < 0 then (true, { h with prefixLen := h.prefixLen + 1 })
  else if h.astate = .path then
    if !endsPath c then h.put c
    else
      let id := getMatchId h.tstr.str urlTbl contentIdUnknown
      if isApi id then
        (true, { h with contentId := id, tstr := h.tstr.clear, astate := .queryName })
      else (false, { h with contentId := id })
  else if !isApi h.contentId then (false, h)
  else
    match h.astate with
    | .queryName =>
        if !endsKey c then h.put c
        else
          let id := getMatchId h.tstr.str qnameIdTable qnameIdUnknown
          if id = qnameIdName then
            (true, { h with
              qeryNameId := id
              tstr := h.tstr.clear
              urlencode := h.urlencode.reset
              astate := .queryValueName })
          else
            (true, { h with qeryNameId := id, tstr := h.tstr.clear, astate := .queryValue })
    | .queryValue =>
        if !endsItem c then (true, h) else (true, { h with astate := .queryName })
    | .queryValueName =>
        if !endsItem c then
          match h.urlencode.decode c with
          | (.next, u) => (true, { h with urlencode := u })
          | (.done b, u) => { h with urlencode := u }.put b
          | (.error, u) => (false, { h with urlencode := u })
        else if h.tstr.l < 1 then (false, h)
        else (true, { h with fname := h.tstr.str ++ [0], astate := .queryName })
    | .path => (false, h)

/-- `single_header` as `execute` sets it up, from what the last request left in it. -/
def start (old : FileIoHeader) (root : List UInt8) : FileIoHeader :=
  { old with
    prefixLen := -(root.length + 2)
    astate := .path
    fname := [0]
    urlencode := old.urlencode.reset
    tstr := .ofSize strbufMax }

/-- The callback of a request, with the C string that it is given. -/
inductive FileCall
  | upload (name : List UInt8)
  | create (name : List UInt8)
  | remove (name : List UInt8)
deriving DecidableEq, Repr

/-- The callback that `execute` comes to; the responses of the others are left out. -/
def fileCall (method : HttpMethod) (r : StreamResult FileIoHeader) : Option FileCall :=
  if !r.ok then none
  else
    let h := r.parser.user
    if h.contentId = contentIdUpload then
      if method = .post then some (.upload (cString h.fname)) else none
    else if h.contentId = contentIdCreate then
      if method = .get ∨ method = .head then some (.create (cString h.fname)) else none
    else if h.contentId = contentIdRemove then
      if method = .get ∨ method = .head then some (.remove (cString h.fname)) else none
    else none

/-- A URL under the root of the module; the length of the prefix is a signed word. -/
structure UnderRoot (root url rest : List UInt8) : Prop where
  url_eq : url = chSlash :: (root ++ chSlash :: rest)
  short : root.length + 2 ≤ 2 ^ 15

/-- Every name item of a query has a whole name that fits, and the last one is the file name. -/
structure Named (its : List (List UInt8)) (fname : List UInt8) : Prop where
  whole : ∀ it ∈ its, keyOf it = nameKey → ∃ v d, valueOf it = some v ∧ PercentEncodes d v ∧
    d ≠ [] ∧ d.length < fnameMax
  last : ∃ v d, lastItem nameKey its = some v ∧ PercentEncodes d v ∧ (0 : UInt8) ∉ d ∧ fname = d ++ [0]

/-- What an accepted URL must leave. -/
structure Serves (rest : List UInt8) (h : FileIoHeader) : Prop where
  path : (pathOf rest, h.contentId) ∈ urlTbl
  named : Named (itemsOf rest) h.fname

/-- What one pair leaves for the next: the text in front of its key, and the file name. -/
structure Reading where
  before : List UInt8
  fname : List UInt8
deriving DecidableEq

/-- Whether a key is taken for that of a name; one that does not fit is refused. -/
def readKey (before key : List UInt8) : Option Bool :=
  if strbufMax ≤ before.length + key.length then none else some (cString (before ++ key) = nameKey)

/-- The text of a name is left in front of the next key. -/
def readName (v : List UInt8) : Option Reading :=
  (UrlEncode.decoded v).bind fun d =>
    if d = [] ∨ strbufMax ≤ d.length then none else some ⟨d, cString d ++ [0]⟩

def readPair (r : Reading) : List UInt8 × Option (List UInt8) → Option Reading
  | (key, none) => (readKey r.before key).map fun _ => r
  | (key, some v) => (readKey r.before key).bind fun name =>
      if name then readName v else some ⟨[], r.fname⟩

/-- The pairs of a query are refused, or give the file name that is asked for. -/
def ReadsRight (its : List (List UInt8)) : Prop :=
  ∀ r, (pairs its).foldlM readPair ⟨[], [0]⟩ = some r → Named its r.fname

/-- A value whose escapes are whole, and whose text has no NUL. -/
structure WholeValue (v : List UInt8) : Prop where
  uncut : ∀ s e d, v = s ++ e → PercentEncodes d s → d ≠ [] → ¬CutEscape e
  text : ∀ d, PercentEncodes d v → (0 : UInt8) ∉ d

/-- Every item has an equals sign, so that its value is its own; behind a name item, and with its
text in front, no key is that of a name. -/
structure InStep (its : List (List UInt8)) : Prop where
  equals : ∀ it ∈ its, chEqual ∈ it
  apart : its.IsChain fun it next => keyOf it = nameKey → ∀ v d, valueOf it = some v →
    PercentEncodes d v → keyOf next ≠ nameKey ∧ cString (d ++ keyOf next) ≠ nameKey
  whole : ∀ it ∈ its, keyOf it = nameKey → ∀ v, valueOf it = some v → WholeValue v
  named : ∃ it ∈ its, keyOf it = nameKey

/-- In front of a key. -/
structure AtKey (id : UInt8) (h : FileIoHeader) (r : Reading) : Prop where
  prefixLen : ¬h.prefixLen < 0
  astate : h.astate = .queryName
  contentId : h.contentId = id
  api : isApi id = true
  shows : h.tstr.Shows (strbufMax - 1) r.before
  stale : r.before = [] → h.tstr.str ≠ nameKey
  fname : h.fname = r.fname

/-- In front of a value, of a name or of another key. -/
structure AtValue (id : UInt8) (fname : List UInt8) (h : FileIoHeader) (name : Bool) : Prop where
  prefixLen : ¬h.prefixLen < 0
  astate : h.astate = if name then .queryValueName else .queryValue
  contentId : h.contentId = id
  api : isApi id = true
  shows : h.tstr.Shows (strbufMax - 1) []
  stale : name = false → h.tstr.str ≠ nameKey
  len : name = true → h.urlencode.len = 0
  fname : h.fname = fname

/-- Within a name, with its text so far. -/
structure InName (id : UInt8) (h : FileIoHeader) (r : List UInt8 × UrlEncode) : Prop where
  prefixLen : ¬h.prefixLen < 0
  astate : h.astate = .queryValueName
  contentId : h.contentId = id
  api : isApi id = true
  shows : h.tstr.Shows (strbufMax - 1) r.1
  urlencode : h.urlencode = r.2

variable {id : UInt8} {h : FileIoHeader} {r : Reading}

theorem getMatchId_name (str : List UInt8) :
    getMatchId str qnameIdTable qnameIdUnknown = if str = nameKey then qnameIdName else qnameIdUnknown := by
  rw [getMatchId, qnameIdTable]
  by_cases hs : str = nameKey
  · rw [if_pos hs, List.find?_cons_of_pos (by simpa using hs.symm)]
    rfl
  · rw [if_neg hs, List.find?_cons_of_neg (by simpa using fun h => hs h.symm)]
    rfl

/-- A key up to its end. -/
theorem goes_key (hat : AtKey id h r) {k : List UInt8} (hk : ∀ c ∈ k, endsKey c = false)
    {c : UInt8} (hc : endsKey c = true) :
    Goes urlHandler (AtValue id r.fname) h (k ++ [c]) (readKey r.before k) := by
  have hput : ∀ (t : CStr) (c : UInt8), endsKey c = false → urlHandler { h with tstr := t } c =
      match t.put c with
      | none => (false, { h with tstr := t })
      | some t' => (true, { h with tstr := t' }) := by
    intro t c hc
    rw [urlHandler, if_neg hat.prefixLen, if_neg (by simp [hat.astate]),
      if_neg (by simp [hat.contentId, hat.api])]
    simp only [hat.astate, hc, Bool.not_false, if_true, FileIoHeader.put]
  have hkey := CStr.Shows.run (fun t => { h with tstr := t }) hput hat.shows k hk
  rw [readKey]
  obtain ⟨hlong, hrun⟩ | ⟨hfits, t, hrun, ht, hnil⟩ := hkey
  · have hfull : strbufMax ≤ r.before.length + k.length := by
      have hs : strbufMax = 48 := rfl
      omega
    rw [if_pos hfull]
    show (runUrl urlHandler h (k ++ [c])).1 = false
    rw [runUrl_append, hrun, if_neg Bool.false_ne_true, hrun]
  · have hroom : ¬strbufMax ≤ r.before.length + k.length := by
      have hs : strbufMax = 48 := rfl
      omega
    rw [if_neg hroom]
    -- an empty text leaves what was there before, which is no name
    have hname : t.str = nameKey ↔ cString (r.before ++ k) = nameKey := by
      by_cases hempty : r.before ++ k = []
      · obtain ⟨hbefore, rfl⟩ := List.append_eq_nil_iff.mp hempty
        rw [hnil rfl, hempty]
        exact iff_of_false (hat.stale hbefore) (by decide)
      · rw [ht.str_eq hempty]
    have hgo : Goes urlHandler (AtValue id r.fname) { h with tstr := t } [c]
        (some (decide (cString (r.before ++ k) = nameKey))) := by
      have hcall : urlHandler { h with tstr := t } c =
          if t.str = nameKey then
            (true, { h with
              qeryNameId := qnameIdName
              tstr := t.clear
              urlencode := h.urlencode.reset
              astate := .queryValueName })
          else
            (true, { h with qeryNameId := qnameIdUnknown, tstr := t.clear, astate := .queryValue }) := by
        rw [urlHandler, if_neg hat.prefixLen, if_neg (by simp [hat.astate]),
          if_neg (by simp [hat.contentId, hat.api])]
        simp only [hat.astate, hc, Bool.not_true, Bool.false_eq_true, if_false, getMatchId_name]
        by_cases hs : t.str = nameKey
        · rw [if_pos hs, if_pos rfl, if_pos hs]
        · rw [if_neg hs, if_neg (by decide), if_neg hs]
      by_cases hs : t.str = nameKey
      · rw [if_pos hs] at hcall
        rw [decide_eq_true (hname.mp hs)]
        exact goes_call hcall ⟨hat.prefixLen, rfl, hat.contentId, hat.api, ht.clear,
          (fun hno => nomatch hno), fun _ => rfl, hat.fname⟩
      · rw [if_neg hs] at hcall
        rw [decide_eq_false fun hc => hs (hname.mpr hc)]
        exact goes_call hcall ⟨hat.prefixLen, rfl, hat.contentId, hat.api, ht.clear,
          fun _ => hs, (fun hno => nomatch hno), hat.fname⟩
    have hfirst : Goes urlHandler (fun s _ => s = { h with tstr := t }) h k (some ()) :=
      ⟨_, hrun, rfl⟩
    exact hfirst.append (g := fun _ => some (decide (cString (r.before ++ k) = nameKey)))
      fun _ s hs => hs ▸ hgo

/-- The value of another key is passed over. -/
theorem goes_skip {fname : List UInt8} (hat : AtValue id fname h false) {v : List UInt8}
    (hv : ∀ c ∈ v, endsItem c = false) {e : UInt8} (he : endsItem e = true) :
    Goes urlHandler (AtKey id) h (v ++ [e]) (some ⟨[], fname⟩) := by
  have hst : h.astate = .queryValue := hat.astate
  have hcall : ∀ c, urlHandler h c =
      if !endsItem c then (true, h) else (true, { h with astate := .queryName }) := by
    intro c
    rw [urlHandler, if_neg hat.prefixLen, if_neg (by simp [hst]),
      if_neg (by simp [hat.contentId, hat.api])]
    simp only [hst]
  induction v with
  | nil =>
    have hend := hcall e
    rw [he, Bool.not_true, if_neg Bool.false_ne_true] at hend
    exact goes_call hend ⟨hat.prefixLen, rfl, hat.contentId, hat.api, hat.shows,
      fun _ => hat.stale rfl, hat.fname⟩
  | cons c v ih =>
    have hskip := hcall c
    rw [hv c List.mem_cons_self, Bool.not_false, if_pos rfl] at hskip
    exact goes_cons hskip (ih fun d hd => hv d (List.mem_cons_of_mem _ hd))

theorem urlHandler_inName {x : List UInt8} {u : UrlEncode} (hin : InName id h (x, u)) {c : UInt8}
    (hc : endsItem c = false) : urlHandler h c =
      match u.decode c with
      | (.next, u') => (true, { h with urlencode := u' })
      | (.done b, u') => { h with urlencode := u' }.put b
      | (.error, u') => (false, { h with urlencode := u' }) := by
  have hst : h.astate = .queryValueName := hin.astate
  have hu : h.urlencode = u := hin.urlencode
  rw [urlHandler, if_neg hin.prefixLen, if_neg (by simp [hst]),
    if_neg (by simp [hin.contentId, hin.api])]
  simp only [hst, hc, Bool.not_false, if_true, hu]

/-- The text of a name, decoded as it comes. -/
theorem goes_decoded {x : List UInt8} {u : UrlEncode} (hin : InName id h (x, u)) {v : List UInt8}
    (hv : ∀ c ∈ v, endsItem c = false) :
    Goes urlHandler (InName id) h v ((UrlEncode.decodeAll u v).bind fun r =>
      if strbufMax ≤ x.length + r.1.length then none else some (x ++ r.1, r.2)) := by
  have hs : strbufMax = 48 := rfl
  induction v generalizing h x u with
  | nil =>
    have hfits : x.length ≤ strbufMax - 1 := hin.shows.fits
    rw [UrlEncode.decodeAll, Option.bind_some, if_neg (by simp only [List.length_nil]; omega)]
    refine ⟨h, rfl, ?_⟩
    rwa [List.append_nil]
  | cons c v ih =>
    have hcall := urlHandler_inName hin (hv c List.mem_cons_self)
    have hrest : ∀ d ∈ v, endsItem d = false := fun d hd => hv d (List.mem_cons_of_mem _ hd)
    rw [UrlEncode.decodeAll]
    cases hdec : u.decode c with
    | mk st u' =>
      rw [hdec] at hcall
      cases st with
      | error => exact goes_refused hcall v
      | next =>
        exact goes_cons hcall (ih ⟨hin.prefixLen, hin.astate, hin.contentId, hin.api, hin.shows, rfl⟩ hrest)
      | done b =>
        have hshows : h.tstr.Shows (strbufMax - 1) x := hin.shows
        obtain ⟨hfull, hput⟩ | ⟨hlt, t, hput, ht⟩ := hshows.put b
        · -- no byte more fits
          have hno : urlHandler h c = (false, { h with urlencode := u' }) := by
            rw [hcall]
            simp only [FileIoHeader.put, hput]
          have hnone : ((UrlEncode.decodeAll u' v).map fun r => (b :: r.1, r.2)).bind (fun r =>
              if strbufMax ≤ x.length + r.1.length then none else some (x ++ r.1, r.2)) = none := by
            rw [Option.bind_map, Option.bind_eq_none_iff]
            intro r _
            simp only [Function.comp_apply]
            rw [if_pos (by rw [List.length_cons]; omega)]
          simp only
          rw [hnone]
          exact goes_refused hno v
        · have hyes : urlHandler h c = (true, { h with urlencode := u', tstr := t }) := by
            rw [hcall]
            simp only [FileIoHeader.put, hput]
          have hgoes := ih (h := { h with urlencode := u', tstr := t })
            ⟨hin.prefixLen, hin.astate, hin.contentId, hin.api, ht, rfl⟩ hrest
          have hsame : ((UrlEncode.decodeAll u' v).map fun r => (b :: r.1, r.2)).bind (fun r =>
              if strbufMax ≤ x.length + r.1.length then none else some (x ++ r.1, r.2)) =
              (UrlEncode.decodeAll u' v).bind fun r =>
                if strbufMax ≤ (x ++ [b]).length + r.1.length then none
                else some ((x ++ [b]) ++ r.1, r.2) := by
            rw [Option.bind_map]
            congr 1
            funext r
            have hsum : x.length + (r.1.length + 1) = x.length + 1 + r.1.length := by omega
            simp only [Function.comp_apply, List.length_cons, List.length_append, List.length_nil,
              Nat.zero_add, List.append_assoc, List.singleton_append, hsum]
          simp only
          rw [hsame]
          exact goes_cons hyes hgoes

/-- A name up to the end of its item. -/
theorem goes_name {fname : List UInt8} (hat : AtValue id fname h true) {v : List UInt8}
    (hv : ∀ c ∈ v, endsItem c = false) {e : UInt8} (he : endsItem e = true) :
    Goes urlHandler (AtKey id) h (v ++ [e]) (readName v) := by
  have hin : InName id h ([], h.urlencode) :=
    ⟨hat.prefixLen, hat.astate, hat.contentId, hat.api, hat.shows, rfl⟩
  have hgoes := goes_decoded hin hv
  have hend : ∀ (r : List UInt8 × UrlEncode) (h' : FileIoHeader), InName id h' r →
      Goes urlHandler (AtKey id) h' [e]
        (if r.1 = [] then none else some ⟨r.1, cString r.1 ++ [0]⟩) := by
    intro r h' hin'
    have hst : h'.astate = .queryValueName := hin'.astate
    have hcall : urlHandler h' e = if h'.tstr.l < 1 then (false, h')
        else (true, { h' with fname := h'.tstr.str ++ [0], astate := .queryName }) := by
      rw [urlHandler, if_neg hin'.prefixLen, if_neg (by simp [hst]),
        if_neg (by simp [hin'.contentId, hin'.api])]
      simp only [hst, he, Bool.not_true, Bool.false_eq_true, if_false]
    have hlen := hin'.shows.length
    by_cases hempty : r.1 = []
    · rw [if_pos (by rw [hlen, hempty]; decide)] at hcall
      rw [if_pos hempty]
      exact goes_refused hcall []
    · have hpos := List.length_pos_iff.mpr hempty
      rw [if_neg (by omega)] at hcall
      rw [if_neg hempty]
      exact goes_call hcall ⟨hin'.prefixLen, rfl, hin'.contentId, hin'.api, hin'.shows,
        fun hnil => absurd hnil hempty, by rw [← hin'.shows.str_eq hempty]⟩
  have hrun := hgoes.append hend
  have hread : ((UrlEncode.decodeAll h.urlencode v).bind fun r =>
      if strbufMax ≤ ([] : List UInt8).length + r.1.length then none else some ([] ++ r.1, r.2)).bind
        (fun r => if r.1 = [] then none else some (⟨r.1, cString r.1 ++ [0]⟩ : Reading)) = readName v := by
    rw [readName, ← UrlEncode.decodeAll_reset (hat.len rfl) v, Option.bind_map, Option.bind_assoc]
    congr 1
    funext r
    simp only [Function.comp_apply, List.length_nil, Nat.zero_add, List.nil_append]
    by_cases hlong : strbufMax ≤ r.1.length
    · rw [if_pos hlong, if_pos (Or.inr hlong)]
      rfl
    · rw [if_neg hlong, Option.bind_some]
      by_cases hempty : r.1 = []
      · rw [if_pos hempty, if_pos (Or.inl hempty)]
      · rw [if_neg hempty, if_neg (not_or.mpr ⟨hempty, hlong⟩)]
  rwa [hread] at hrun

/-- What the calls leave of a URL. -/
def Left (id : UInt8) (h : FileIoHeader) (r : Reading) : Prop := h.contentId = id ∧ h.fname = r.fname

theorem AtKey.left (hat : AtKey id h r) : Left id h r := ⟨hat.contentId, hat.fname⟩

theorem goes_query (hat : AtKey id h r) (q : List UInt8) :
    Goes urlHandler (Left id) h (q ++ [0]) ((pairs (items q)).foldlM readPair r) := by
  refine goes_pairs (R := AtKey id) (fun _ _ h => h.left) ?_ ?_ hat q
  · intro s a k c v e hat hk hc hv he
    have hsplit : k ++ c :: (v ++ [e]) = (k ++ [c]) ++ (v ++ [e]) := by simp
    rw [hsplit]
    refine (goes_key hat hk hc).append fun name s' hat' => ?_
    cases name with
    | false => exact goes_skip hat' hv he
    | true => exact goes_name hat' hv he
  · intro s a k hat hk
    exact (goes_key hat hk rfl).map fun s' _ hat' => ⟨hat'.contentId, hat'.fname⟩

/-- The path is refused, or one of the three. -/
def readPath (path : List UInt8) : Option UInt8 :=
  let id := getMatchId path urlTbl contentIdUnknown
  if isApi id then some id else none

theorem readPath_eq_some {path : List UInt8} : readPath path = some id ↔ (path, id) ∈ urlTbl := by
  have hid : ∀ e ∈ urlTbl, getMatchId e.1 urlTbl contentIdUnknown = e.2 ∧ isApi e.2 = true := by decide
  constructor
  · intro h
    cases hfind : urlTbl.find? fun e => e.1 == path with
    | none =>
      have hno : readPath path = none := by
        rw [readPath, getMatchId, hfind]
        rfl
      rw [hno] at h
      cases h
    | some e =>
      have hmem := List.mem_of_find?_eq_some hfind
      have hpath : e.1 = path := by simpa using List.find?_some hfind
      have hyes : readPath path = some e.2 := by
        rw [readPath, getMatchId, hfind]
        exact if_pos (hid e hmem).2
      obtain rfl := Option.some.inj (hyes.symm.trans h)
      rw [← hpath]
      exact hmem
  · intro h
    obtain ⟨hmatch, hapi⟩ := hid _ h
    show (if isApi (getMatchId path urlTbl contentIdUnknown) then _ else none) = _
    rw [hmatch, if_pos hapi]

/-- In front of the path. -/
structure AtPath (fname : List UInt8) (h : FileIoHeader) : Prop where
  prefixLen : ¬h.prefixLen < 0
  astate : h.astate = .path
  shows : h.tstr.Shows (strbufMax - 1) []
  str : h.tstr.str = []
  fname : h.fname = fname

theorem goes_path {fname : List UInt8} (hat : AtPath fname h) {p : List UInt8}
    (hp : ∀ c ∈ p, endsPath c = false) {c : UInt8} (hc : endsPath c = true) :
    Goes urlHandler (fun h id => AtKey id h ⟨[], fname⟩) h (p ++ [c]) (readPath p) := by
  have hput : ∀ (t : CStr) (c : UInt8), endsPath c = false → urlHandler { h with tstr := t } c =
      match t.put c with
      | none => (false, { h with tstr := t })
      | some t' => (true, { h with tstr := t' }) := by
    intro t c hc
    rw [urlHandler, if_neg hat.prefixLen, if_pos hat.astate]
    simp only [hc, Bool.not_false, if_true, FileIoHeader.put]
  obtain ⟨hlong, hrun⟩ | ⟨hfits, t, hrun, ht, hnil⟩ :=
    CStr.Shows.run (fun t => { h with tstr := t }) hput hat.shows p hp
  · have hno : readPath p = none := by
      rw [← Option.not_isSome_iff_eq_none, Option.isSome_iff_exists]
      rintro ⟨id, hid⟩
      have hshort : ∀ e ∈ urlTbl, e.1.length ≤ strbufMax - 1 := by decide
      have hlen : p.length ≤ strbufMax - 1 := hshort _ (readPath_eq_some.mp hid)
      rw [List.length_nil, Nat.zero_add] at hlong
      omega
    rw [hno]
    show (runUrl urlHandler h (p ++ [c])).1 = false
    rw [runUrl_append, hrun, if_neg Bool.false_ne_true, hrun]
  · have hstr : t.str = p := by
      cases p with
      | nil => rw [hnil rfl, hat.str]
      | cons d p =>
        have hz : ∀ c ∈ d :: p, c ≠ 0 := fun c hc h0 => absurd (hp c hc) (by rw [h0]; decide)
        rw [ht.str_eq (List.cons_ne_nil _ _), List.nil_append, cString_of_ne_zero hz]
    have hcall : urlHandler { h with tstr := t } c =
        if isApi (getMatchId p urlTbl contentIdUnknown) then
          (true, { h with
            contentId := getMatchId p urlTbl contentIdUnknown
            tstr := t.clear
            astate := .queryName })
        else (false, { h with contentId := getMatchId p urlTbl contentIdUnknown, tstr := t }) := by
      rw [urlHandler, if_neg hat.prefixLen, if_pos hat.astate]
      simp only [hc, Bool.not_true, Bool.false_eq_true, if_false, hstr]
    have hgo : Goes urlHandler (fun h id => AtKey id h ⟨[], fname⟩) { h with tstr := t } [c]
        (readPath p) := by
      unfold readPath
      by_cases hapi : isApi (getMatchId p urlTbl contentIdUnknown) = true
      · rw [if_pos hapi] at hcall
        rw [if_pos hapi]
        refine goes_call hcall ⟨hat.prefixLen, rfl, rfl, hapi, ht.clear, fun _ => ?_, hat.fname⟩
        -- no path of the table is the key
        have hid : readPath p = some (getMatchId p urlTbl contentIdUnknown) := if_pos hapi
        have hkey : ∀ e ∈ urlTbl, e.1 ≠ nameKey := by decide
        have hstale : t.clear.str = p := hstr
        rw [hstale]
        exact hkey _ (readPath_eq_some.mp hid)
      · rw [if_neg hapi] at hcall
        rw [if_neg hapi]
        exact goes_refused hcall []
    have hfirst : Goes urlHandler (fun s _ => s = { h with tstr := t }) h p (some ()) := ⟨_, hrun, rfl⟩
    exact hfirst.append (g := fun _ => readPath p) fun _ s hs => hs ▸ hgo

/-- The characters of the prefix are only counted. -/
theorem runUrl_counted {cs : List UInt8} (h : FileIoHeader) (hlen : h.prefixLen = -cs.length) :
    runUrl urlHandler h cs = (true, { h with prefixLen := 0 }) := by
  induction cs generalizing h with
  | nil =>
    have hzero : h.prefixLen = 0 := hlen
    rw [runUrl, ← hzero]
  | cons c cs ih =>
    rw [List.length_cons] at hlen
    have hcall : urlHandler h c = (true, { h with prefixLen := h.prefixLen + 1 }) := by
      rw [urlHandler, if_pos (by omega)]
    rw [runUrl_cons hcall, ih _ (show h.prefixLen + 1 = _ by omega)]

/-- What the handler makes of a URL, its path and the pairs of its query read one after the
other. -/
theorem goes_url (old : FileIoHeader) {root url rest : List UInt8} (hroot : UnderRoot root url rest) :
    Goes urlHandler (fun h a => Left a.1 h a.2) (start old root) (url ++ [0])
      ((readPath (pathOf rest)).bind fun id =>
        ((pairs (itemsOf rest)).foldlM readPair ⟨[], [0]⟩).map (id, ·)) := by
  have hskip : runUrl urlHandler (start old root) (chSlash :: (root ++ [chSlash])) =
      (true, { start old root with prefixLen := 0 }) := by
    refine runUrl_counted _ ?_
    show -((root.length : Int) + 2) = _
    rw [List.length_cons, List.length_append, List.length_singleton]
    omega
  have hat : AtPath [0] { start old root with prefixLen := 0 } :=
    ⟨Int.lt_irrefl 0, rfl, CStr.shows_ofSize 47, rfl, rfl⟩
  have hsplit : url ++ [0] = (chSlash :: (root ++ [chSlash])) ++ (rest ++ [0]) := by
    rw [hroot.url_eq]
    simp
  have hfirst : Goes urlHandler (fun s _ => AtPath [0] s) (start old root)
      (chSlash :: (root ++ [chSlash])) (some ()) := ⟨_, hskip, hat⟩
  rw [hsplit]
  refine hfirst.append (g := fun _ => (readPath (pathOf rest)).bind fun id =>
    ((pairs (itemsOf rest)).foldlM readPair ⟨[], [0]⟩).map (id, ·)) fun _ h hat => ?_
  have hpath : ∀ c ∈ pathOf rest, endsPath c = false := fun c hc => by
    simpa using List.mem_takeWhile_imp (p := fun c => !endsPath c) hc
  have hwhole := List.takeWhile_append_dropWhile (p := fun c => !endsPath c) (l := rest)
  unfold itemsOf
  cases hdrop : rest.dropWhile fun c => !endsPath c with
  | nil =>
    rw [hdrop, List.append_nil] at hwhole
    have hgoes := goes_path hat hpath (c := 0) rfl
    have hall : pathOf rest = rest := hwhole
    rw [hall] at hgoes ⊢
    exact (Option.map_eq_bind.symm ▸ hgoes.map fun h' id hat' => hat'.left)
  | cons c query =>
    have hc : endsPath c = true := by
      have hhead := List.head?_dropWhile_not (fun c => !endsPath c) rest
      rw [hdrop] at hhead
      simpa using hhead
    have hcut : rest ++ [0] = (pathOf rest ++ [c]) ++ (query ++ [0]) := by
      conv_lhs => rw [← hwhole, hdrop]
      simp [pathOf]
    rw [hcut]
    exact (goes_path hat hpath hc).append fun id h' hat' => (goes_query hat' query).map fun _ _ h => h

theorem readName_whole {v : List UInt8} (hv : WholeValue v) (hr : readName v = some r) :
    ∃ d, PercentEncodes d v ∧ d ≠ [] ∧ d.length < fnameMax ∧ r = ⟨d, d ++ [0]⟩ := by
  obtain ⟨d, hdec, hd⟩ := Option.bind_eq_some_iff.mp hr
  split at hd
  · cases hd
  · next hgood =>
    obtain ⟨hne, hlen⟩ := not_or.mp hgood
    have henc : PercentEncodes d v := by
      obtain hwhole | ⟨s, e, hsplit, hs, he⟩ := UrlEncode.percentEncodes_of_decoded hdec
      · exact hwhole
      · exact absurd he (hv.uncut s e d hsplit hs hne)
    have hz : ∀ c ∈ d, c ≠ 0 := fun c hc h0 => hv.text d henc (h0 ▸ hc)
    rw [cString_of_ne_zero hz] at hd
    exact ⟨d, henc, hne, not_le.mp hlen, (Option.some.inj hd).symm⟩

/-- Items in step are read one by one. -/
theorem reads_inStep {its : List (List UInt8)} (hitem : ∀ it ∈ its, ∀ c ∈ it, endsItem c = false)
    (hequals : ∀ it ∈ its, chEqual ∈ it)
    (hapart : its.IsChain fun it next => keyOf it = nameKey → ∀ v d, valueOf it = some v →
      PercentEncodes d v → keyOf next ≠ nameKey ∧ cString (d ++ keyOf next) ≠ nameKey)
    (hwhole : ∀ it ∈ its, keyOf it = nameKey → ∀ v, valueOf it = some v → WholeValue v)
    {r r' : Reading} (hfree : r.before = [] ∨ ∀ it, its.head? = some it →
      keyOf it ≠ nameKey ∧ cString (r.before ++ keyOf it) ≠ nameKey)
    (hread : (pairs its).foldlM readPair r = some r') :
    (∀ it ∈ its, keyOf it = nameKey → ∃ v d, valueOf it = some v ∧ PercentEncodes d v ∧ d ≠ [] ∧
        d.length < fnameMax) ∧
      ((∀ it ∈ its, keyOf it ≠ nameKey) ∧ r'.fname = r.fname ∨
        ∃ v d, lastItem nameKey its = some v ∧ PercentEncodes d v ∧ (0 : UInt8) ∉ d ∧
          r'.fname = d ++ [0]) := by
  induction its generalizing r with
  | nil =>
    rw [pairs, List.foldlM_nil] at hread
    obtain rfl := Option.some.inj hread
    exact ⟨fun it hit => absurd hit List.not_mem_nil, Or.inl ⟨fun it hit => absurd hit List.not_mem_nil, rfl⟩⟩
  | cons it its ih =>
    cases hv : valueOf it with
    | none => exact absurd (hequals it List.mem_cons_self) (valueOf_none.mp hv)
    | some v =>
      rw [pairs_value hv, List.foldlM_cons] at hread
      obtain ⟨r1, hpair, hrest⟩ := Option.bind_eq_some_iff.mp hread
      have hih := fun hfree => ih (r := r1) (fun it hit => hitem it (List.mem_cons_of_mem _ hit))
        (fun it hit => hequals it (List.mem_cons_of_mem _ hit)) hapart.tail
        (fun it hit => hwhole it (List.mem_cons_of_mem _ hit)) hfree hrest
      have hkey : cString (r.before ++ keyOf it) = nameKey ↔ keyOf it = nameKey := by
        rcases hfree with hnil | hfree
        · have hz : ∀ c ∈ keyOf it, c ≠ 0 := fun c hc h0 => by
            have hno := hitem it List.mem_cons_self c ((List.takeWhile_prefix _).subset hc)
            rw [h0] at hno
            exact absurd hno (by decide)
          rw [hnil, List.nil_append, cString_of_ne_zero hz]
        · obtain ⟨hne, hne'⟩ := hfree it rfl
          exact iff_of_false hne' hne
      obtain ⟨name, hname, hvalue⟩ := Option.bind_eq_some_iff.mp hpair
      have hdec : name = decide (keyOf it = nameKey) := by
        rw [readKey] at hname
        split at hname
        · cases hname
        · rw [← Option.some.inj hname, decide_eq_decide]
          exact hkey
      by_cases hit : keyOf it = nameKey
      · rw [hdec, decide_eq_true hit, if_pos rfl] at hvalue
        have hv' := hwhole it List.mem_cons_self hit v hv
        obtain ⟨d, henc, hne, hlen, rfl⟩ := readName_whole hv' hvalue
        have hfree' : d = [] ∨ ∀ next, its.head? = some next →
            keyOf next ≠ nameKey ∧ cString (d ++ keyOf next) ≠ nameKey := by
          refine Or.inr fun next hnext => ?_
          obtain ⟨tail, rfl⟩ := List.head?_eq_some_iff.mp hnext
          exact (List.isChain_cons_cons.mp hapart).1 hit v d hv henc
        obtain ⟨hall, hlast⟩ := hih hfree'
        refine ⟨fun x hx hkeyx => ?_, Or.inr ?_⟩
        · rcases List.mem_cons.mp hx with rfl | hx
          · exact ⟨v, d, hv, henc, hne, hlen⟩
          · exact hall x hx hkeyx
        · rcases hlast with ⟨hnone, hfname⟩ | ⟨v', d', hlast, henc', hz, hfname⟩
          · exact ⟨v, d, lastItem_of_head hnone hit hv, henc, hv'.text d henc, hfname⟩
          · exact ⟨v', d', lastItem_of_tail hlast, henc', hz, hfname⟩
      · rw [hdec, decide_eq_false hit, if_neg Bool.false_ne_true] at hvalue
        obtain rfl := Option.some.inj hvalue
        obtain ⟨hall, hlast⟩ := hih (Or.inl rfl)
        refine ⟨fun x hx hkeyx => ?_, ?_⟩
        · rcases List.mem_cons.mp hx with rfl | hx
          · exact absurd hkeyx hit
          · exact hall x hx hkeyx
        · rcases hlast with ⟨hnone, hfname⟩ | ⟨v', d', hlast, henc', hz, hfname⟩
          · refine Or.inl ⟨fun x hx => ?_, hfname⟩
            rcases List.mem_cons.mp hx with rfl | hx
            · exact hit
            · exact hnone x hx
          · exact Or.inr ⟨v', d', lastItem_of_tail hlast, henc', hz, hfname⟩

theorem endsItem_of_mem_itemsOf {rest it : List UInt8} (hit : it ∈ itemsOf rest) :
    ∀ c ∈ it, endsItem c = false := by
  unfold itemsOf at hit
  split at hit
  · cases hit
  · exact endsItem_of_mem_items hit

theorem InStep.readsRight {rest : List UInt8} (hs : InStep (itemsOf rest)) : ReadsRight (itemsOf rest) := by
  intro r hread
  obtain ⟨hall, hlast⟩ := reads_inStep (fun it hit => endsItem_of_mem_itemsOf hit) hs.equals hs.apart
    hs.whole (Or.inl rfl) hread
  refine ⟨hall, ?_⟩
  rcases hlast with ⟨hnone, -⟩ | hlast
  · obtain ⟨it, hit, hkey⟩ := hs.named
    exact absurd hkey (hnone it hit)
  · exact hlast

/-- The callback is that of the path, with the text that the handler left. -/
theorem fileCall_eq_some {m : HttpMethod} {res : StreamResult FileIoHeader} {call : FileCall}
    (hcall : fileCall m res = some call) : res.ok = true ∧ (res.parser.user.contentId, call) ∈
      [(contentIdUpload, .upload (cString res.parser.user.fname)),
        (contentIdCreate, .create (cString res.parser.user.fname)),
        (contentIdRemove, FileCall.remove (cString res.parser.user.fname))] := by
  unfold fileCall at hcall
  split at hcall
  · cases hcall
  · next hok =>
    refine ⟨by simpa using hok, ?_⟩
    simp only at hcall
    split at hcall
    · next hid =>
      split at hcall
      · obtain rfl := Option.some.inj hcall
        rw [hid]
        exact List.mem_cons_self
      · cases hcall
    · split at hcall
      · next hid =>
        split at hcall
        · obtain rfl := Option.some.inj hcall
          rw [hid]
          exact List.mem_cons_of_mem _ List.mem_cons_self
        · cases hcall
      · split at hcall
        · next hid =>
          split at hcall
          · obtain rfl := Option.some.inj hcall
            rw [hid]
            exact List.mem_cons_of_mem _ (List.mem_cons_of_mem _ List.mem_cons_self)
          · cases hcall
        · cases hcall

/-- A URL is served as it asks just when the pairs of its query give the last name: a name item
leaves its text in front of the next key, and an item without an equals sign takes the next one for
its value. Queries in step are served, and every callback gets what the handler left. -/
theorem fileIo_serves_iff (old : FileIoHeader) {root url rest : List UInt8}
    (hroot : UnderRoot root url rest) :
    ((∀ h, runUrl urlHandler (start old root) (url ++ [0]) = (true, h) → Serves rest h) ↔
        (∀ id, (pathOf rest, id) ∉ urlTbl) ∨ ReadsRight (itemsOf rest)) ∧
      (InStep (itemsOf rest) → ReadsRight (itemsOf rest)) ∧
      (∀ d, PercentEncodes d (percentEncode d)) ∧
      (∀ (u : UrlEncode) d t, u.len = 0 → PercentEncodes d t →
        ∃ u', u.decodeAll t = some (d, u') ∧ u'.len = 0) ∧
      ∀ (out : BasicHeader) (m : HttpMethod) (pushed : List UInt8) (reads : List (List UInt8))
        (call : FileCall), UrlRequest url pushed reads →
        fileCall m (moduleParse urlHandler out (start old root) m pushed reads) = some call →
        ∃ h, runUrl urlHandler (start old root) (url ++ [0]) = (true, h) ∧
          (h.contentId, call) ∈ [(contentIdUpload, .upload (cString h.fname)),
            (contentIdCreate, .create (cString h.fname)), (contentIdRemove, .remove (cString h.fname))] := by
  refine ⟨?_, InStep.readsRight, percentEncodes_percentEncode, fun u d t hlen h =>
    UrlEncode.decodeAll_of_percentEncodes h hlen, ?_⟩
  · have hgoes := goes_url old hroot
    cases hpath : readPath (pathOf rest) with
    | none =>
      rw [hpath] at hgoes
      have hrefused : (runUrl urlHandler (start old root) (url ++ [0])).1 = false := hgoes
      refine iff_of_true (fun h hrun => ?_) (Or.inl fun id hmem => ?_)
      · rw [hrun] at hrefused
        cases hrefused
      · rw [readPath_eq_some.mpr hmem] at hpath
        cases hpath
    | some id =>
      rw [hpath, Option.bind_some] at hgoes
      have hmem := readPath_eq_some.mp hpath
      have hpaths : ¬∀ id, (pathOf rest, id) ∉ urlTbl := fun hno => hno id hmem
      rw [or_iff_right hpaths, ReadsRight]
      cases hread : (pairs (itemsOf rest)).foldlM readPair ⟨[], [0]⟩ with
      | none =>
        rw [hread] at hgoes
        have hrefused : (runUrl urlHandler (start old root) (url ++ [0])).1 = false := hgoes
        refine iff_of_true (fun h hrun => ?_) fun r hr => nomatch hr
        rw [hrun] at hrefused
        cases hrefused
      | some r =>
        rw [hread, Option.map_some] at hgoes
        obtain ⟨h, hrun, hid, hfname⟩ := hgoes
        constructor
        · intro hserves r' hr'
          obtain rfl := Option.some.inj hr'
          rw [← hfname]
          exact (hserves h hrun).named
        · intro hright h' hrun'
          obtain rfl := (Prod.mk.inj (hrun.symm.trans hrun')).2
          exact ⟨hid ▸ hmem, hfname ▸ hright r rfl⟩
  · intro out m pushed reads call hreq hcall
    obtain ⟨huser, hok⟩ := moduleParse_url urlHandler out (start old root) m hreq
    obtain ⟨hdone, hmem⟩ := fileCall_eq_some hcall
    rw [huser] at hmem
    exact ⟨_, Prod.ext (hok hdone) rfl, hmem⟩

/-- A header that an earlier request left. -/
def sampleHeader : FileIoHeader :=
  ⟨⟨0, 0⟩, contentIdUpload, qnameIdName, .queryName, 0, .ofSize strbufMax, ascii "old" ++ [0]⟩

/-- The escaped slash is decoded. -/
theorem fileIo_serves_create :
    ∃ h, runUrl urlHandler (start sampleHeader (ascii "fs")) (ascii "/fs/create.api?name=a%2Fb" ++ [0]) =
      (true, h) ∧ Serves (ascii "create.api?name=a%2Fb") h := by
  have hroot : UnderRoot (ascii "fs") (ascii "/fs/create.api?name=a%2Fb") (ascii "create.api?name=a%2Fb") :=
    ⟨by decide, by decide⟩
  have hits : itemsOf (ascii "create.api?name=a%2Fb") = [ascii "name=a%2Fb"] := by decide
  have hval : valueOf (ascii "name=a%2Fb") = some (ascii "a%2Fb") := by decide
  have henc : PercentEncodes (ascii "a/b") (ascii "a%2Fb") :=
    .plain (by decide) (.escaped (by decide) (by decide) (by decide) (.plain (by decide) .nil))
  have hwhole : WholeValue (ascii "a%2Fb") := by
    refine ⟨fun s e d hsplit _ _ hcut => ?_, fun d hd => ?_⟩
    · have hlast : (s ++ e).drop 3 = ascii "Fb" := by
        rw [← hsplit]
        decide
      have hshort : (s ++ e).length = 5 := by
        rw [← hsplit]
        decide
      have hpercent : chPercent ∈ (s ++ e).drop 3 := by
        rw [List.length_append] at hshort
        rw [List.drop_append]
        rcases hcut with rfl | ⟨x, -, rfl⟩
        · refine List.mem_append_right _ ?_
          rw [List.length_singleton] at hshort
          rw [show 3 - s.length = 0 by omega]
          exact List.mem_cons_self
        · refine List.mem_append_right _ ?_
          simp only [List.length_cons, List.length_nil] at hshort
          rw [show 3 - s.length = 0 by omega]
          exact List.mem_cons_self
      rw [hlast] at hpercent
      exact absurd hpercent (by decide)
    · have heq := (UrlEncode.decoded_of_percentEncodes hd).symm.trans
        (UrlEncode.decoded_of_percentEncodes henc)
      rw [Option.some.inj heq]
      decide
  have hstep : InStep (itemsOf (ascii "create.api?name=a%2Fb")) := by
    rw [hits]
    refine ⟨by decide, List.isChain_singleton _, fun it hit _ v hv => ?_, ⟨_, List.mem_cons_self, by decide⟩⟩
    rw [List.mem_singleton.mp hit, hval] at hv
    exact Option.some.inj hv ▸ hwhole
  have hread : ((readPath (pathOf (ascii "create.api?name=a%2Fb"))).bind fun id =>
      ((pairs (itemsOf (ascii "create.api?name=a%2Fb"))).foldlM readPair ⟨[], [0]⟩).map (id, ·)) =
      some (contentIdCreate, ⟨ascii "a/b", ascii "a/b" ++ [0]⟩) := by decide +kernel
  have hgoes := goes_url sampleHeader hroot
  rw [hread] at hgoes
  obtain ⟨h, hrun, -⟩ := hgoes
  obtain ⟨hiff, hright, -⟩ := fileIo_serves_iff sampleHeader hroot
  exact ⟨h, hrun, hiff.mpr (Or.inr (hright hstep)) h hrun⟩

/-- Behind a name the next key begins with its text, so that the second name is not seen. -/
theorem not_fileIo_serves :
    ¬∀ h, runUrl urlHandler (start sampleHeader (ascii "fs"))
      (ascii "/fs/create.api?name=a&name=b" ++ [0]) = (true, h) →
        Serves (ascii "create.api?name=a&name=b") h := by
  intro hall
  have hread : ((readPath (pathOf (ascii "create.api?name=a&name=b"))).bind fun id =>
      ((pairs (itemsOf (ascii "create.api?name=a&name=b"))).foldlM readPair ⟨[], [0]⟩).map (id, ·)) =
      some (contentIdCreate, ⟨[], ascii "a" ++ [0]⟩) := by decide +kernel
  have hroot : UnderRoot (ascii "fs") (ascii "/fs/create.api?name=a&name=b")
      (ascii "create.api?name=a&name=b") := ⟨by decide, by decide⟩
  have hgoes := goes_url sampleHeader hroot
  rw [hread] at hgoes
  obtain ⟨h, hrun, -, hfname⟩ := hgoes
  obtain ⟨v, d, hlast, henc, -, hd⟩ := (hall h hrun).named.last
  have hb : lastItem nameKey (itemsOf (ascii "create.api?name=a&name=b")) = some (ascii "b") := by decide
  obtain rfl := Option.some.inj (hlast.symm.trans hb)
  have hdec := UrlEncode.decoded_of_percentEncodes henc
  have hbyte : UrlEncode.decoded (ascii "b") = some (ascii "b") := by decide
  rw [hfname, ← Option.some.inj (hbyte.symm.trans hdec)] at hd
  exact absurd hd (by decide)

end ModFileIoBaseClass

end MiMic.Httpd
