import MiMic.Http.UrlReader
import MiMic.Httpd.OneResponse
import MiMic.Httpd.UrlCapture
import MiMic.Lib.Json

/-!
# Listing a directory

`ModLocalFileSystem` answers a URL with the query key `list` by the entries of the directory that
its path names. The path is cut out of the URL in the buffer that holds it. What `opendir` and
`readdir` find is given from outside.
-/
namespace MiMic.Http

open Verif

/-- `NyLPC_cUrlReader_getPath`: the length of the path. -/
def UrlReader.getPath (src : List UInt8) : Nat :=
  (src.takeWhile fun c => !(c == chQuestion || c == chHash)).length

namespace MimeType

def table : List (List UInt8 × List UInt8) :=
  [(ascii "zip", ascii "application/zip"), (ascii "js", ascii "application/x-javascript"),
    (ascii "txt", ascii "text/plain"), (ascii "html", ascii "text/html"),
    (ascii "htm", ascii "text/html"), (ascii "css", ascii "text/css"),
    (ascii "jpeg", ascii "image/jpeg"), (ascii "jpg", ascii "image/jpeg"),
    (ascii "png", ascii "image/png"), (ascii "gif", ascii "image/gif")]

def defaultMimetype : List UInt8 := ascii "application/octet-stream"

/-- What stands behind the last dot. -/
def extension (fileName : List UInt8) : Option (List UInt8) :=
  if chDot ∈ fileName then some (fileName.reverse.takeWhile (· != chDot)).reverse else none

/-- `NyLPC_cMiMeType_getFileName2MimeType`. -/
def ofFileName (fileName : List UInt8) : List UInt8 :=
  match extension fileName with
  | none => defaultMimetype
  | some ext => ((table.find? fun e => stricmp e.1 ext == 0).map Prod.snd).getD defaultMimetype

end MimeType

end MiMic.Http

namespace MiMic.Httpd

open Http Verif
open Verif.Json (Value IsJson Utf8 PlainChar)

/-- `struct dirent`, and what `direntFAT` has behind it. The name is a C string in an array of
`NAME_MAX+1` characters. -/
structure Dirent where
  name : List UInt8
  fattrib : UInt8
  fsize : UInt32
  name_text : ∀ c ∈ name, c ≠ 0
  name_length : name.length ≤ 255

/-- The types that a module is set up with. -/
inductive FsType
  | default
  | sdFatFs
deriving DecidableEq, Repr

/-- `FST_DEFAULT` and `FST_SDFATFS`. -/
def FsType.code : FsType → UInt8
  | .default => 0x00
  | .sdFatFs => 0x01

namespace ModLocalFileSystem

def sizeOfHttpBuf : Nat := 512

/-- `AM_DIR`. -/
def amDir : UInt8 := 0x10

/-- The C string in the shared buffer. -/
def bufText (buf : Int → UInt8) : List UInt8 :=
  cString ((List.range sizeOfHttpBuf).map fun i : Nat => buf i)

def dirHead : List UInt8 := ascii "\x7b\"dir\":\""
def notFoundTail : List UInt8 := ascii "\",\"status\":404,\"list\":[]\x7d"
def foundTail : List UInt8 := ascii "\",\"status\":200,\"list\":["
def nameHead : List UInt8 := ascii "\x7b\"name\":\""
def mtypeHead : List UInt8 := ascii "\",\"mtype\":\""
def sizeHead : List UInt8 := ascii "\",\"size\":"

/-- A text, a string and a text. -/
def formatString (head tail : List UInt8) : List UInt8 := head ++ (0x25 :: 0x73 :: tail)

theorem formatText_string {head tail : List UInt8} (hhead : chPercent ∉ head) (htail : chPercent ∉ tail)
    (s : List UInt8) : formatText (formatString head tail) [.ptr s] =
      some (head ++ (limited s 0x7fffffff ++ tail)) := by
  rw [formatText, formatString, textLoop_lit hhead, textLoop_percent, textLoop_s, textLoop_all htail]
  rfl

/-- The whole answer where there is no directory. -/
def notFoundCall (dir : List UInt8) : BodyCall :=
  .format (formatString dirHead notFoundTail) [.ptr dir]
    (Option.isSome_of_eq_some (formatText_string (by decide) (by decide) dir))

def foundCall (dir : List UInt8) : BodyCall :=
  .format (formatString dirHead foundTail) [.ptr dir]
    (Option.isSome_of_eq_some (formatText_string (by decide) (by decide) dir))

def commaCall : BodyCall :=
  .format (ascii ",") [] (Option.isSome_of_eq_some (textLoop_all (by decide) []))

def closeCall : BodyCall :=
  .format (ascii "]\x7d") [] (Option.isSome_of_eq_some (textLoop_all (by decide) []))

def defaultFormat : List UInt8 :=
  nameHead ++ (0x25 :: 0x73 :: (mtypeHead ++ (0x25 :: 0x73 :: (sizeHead ++ ascii "undefined\x7d"))))

def fatFormat : List UInt8 :=
  nameHead ++ (0x25 :: 0x73 :: (mtypeHead ++ (0x25 :: 0x73 :: (sizeHead ++ (0x25 :: 0x75 :: ascii "\x7d")))))

theorem formatText_default (name mtype : List UInt8) :
    formatText defaultFormat [.ptr name, .ptr mtype] =
      some (nameHead ++ (limited name 0x7fffffff ++ (mtypeHead ++ (limited mtype 0x7fffffff ++
        (sizeHead ++ ascii "undefined\x7d"))))) := by
  rw [formatText, defaultFormat, textLoop_lit (by decide), textLoop_percent, textLoop_s,
    textLoop_lit (by decide), textLoop_percent, textLoop_s, textLoop_all (by decide)]
  rfl

theorem formatText_fat (name mtype : List UInt8) (size : UInt32) :
    formatText fatFormat [.ptr name, .ptr mtype, .word size] =
      some (nameHead ++ (limited name 0x7fffffff ++ (mtypeHead ++ (limited mtype 0x7fffffff ++
        (sizeHead ++ (uitoa size 10 ++ ascii "\x7d")))))) := by
  rw [formatText, fatFormat, textLoop_lit (by decide), textLoop_percent, textLoop_s,
    textLoop_lit (by decide), textLoop_percent, textLoop_s, textLoop_lit (by decide),
    textLoop_percent, textLoop_u, textLoop_all (by decide)]
  rfl

/-- An entry of `FST_DEFAULT`. -/
def defaultCall (p : Dirent) : BodyCall :=
  .format defaultFormat [.ptr p.name, .ptr (MimeType.ofFileName p.name)]
    (Option.isSome_of_eq_some (formatText_default _ _))

def isDir (p : Dirent) : Bool := p.fattrib &&& amDir ≠ 0

def mtypeOf (p : Dirent) : List UInt8 :=
  if isDir p then ascii "directory" else MimeType.ofFileName p.name

def sizeOf (p : Dirent) : UInt32 := if isDir p then 0 else p.fsize

/-- An entry of `FST_SDFATFS`. -/
def fatCall (p : Dirent) : BodyCall :=
  .format fatFormat [.ptr p.name, .ptr (mtypeOf p), .word (sizeOf p)]
    (Option.isSome_of_eq_some (formatText_fat _ _ _))

/-- The loop over a directory, with what `readdir` has given and what it is going to give. `none`
is a NULL that is used like an entry. -/
def listLoop (entry : Dirent → BodyCall) : Option Dirent → List Dirent → Option (List BodyCall)
  | none, _ => none
  | some p, [] => some [entry p]
  | some p, q :: d => (listLoop entry (some q) d).map fun calls => entry p :: commaCall :: calls

/-- The `switch` over the type of the file system. -/
def listEntries (fsType : UInt8) (d : List Dirent) : Option (List BodyCall) :=
  if fsType = FsType.default.code then listLoop defaultCall d.head? d.tail
  else if fsType = FsType.sdFatFs.code then listLoop fatCall d.head? d.tail
  else some []

/-- The stores that cut the path at its end and at a slash before it. -/
def cutPath (buf : Int → UInt8) (l : Int) : Stores.Log Int UInt8 :=
  (l, 0) :: if Function.update buf l 0 (l - 1) = chSlash then [(l - 1, 0)] else []

/-- The path that is looked up in a buffer. -/
def dirName (buf : Int → UInt8) : List UInt8 :=
  bufText (Stores.run buf (cutPath buf (UrlReader.getPath (bufText buf))))

/-- The calls for the body of a listing. -/
def listCalls (fsType : UInt8) (opendir : List UInt8 → Option (List Dirent)) (buf : Int → UInt8) :
    Option (List BodyCall) :=
  match opendir (dirName buf) with
  | none => some [notFoundCall (dirName buf)]
  | some d => (listEntries fsType d).map fun calls => foundCall (dirName buf) :: (calls ++ [closeCall])

/-- `retDirJson`; `none` is also a store outside of a send buffer. -/
def retDirJson (c : Responder) (fsType : UInt8) (opendir : List UInt8 → Option (List Dirent))
    (buf : Int → UInt8) : Option Responder :=
  c.sendJsonHeader.bind fun r =>
    if !r.2 then some r.1
    else if r.1.method = .get then (listCalls fsType opendir buf).bind r.1.sendAll
    else some r.1

/-- `ModBaseClass::canHandle` with the path of the module and the front of the URL; the lengths
are compared as `size_t`. The status of the request is not asked, since its negation is compared
with `REQPARSE`. -/
def canHandle (path : Option (List UInt8)) (inUrl : List UInt8) : Bool :=
  match path with
  | none => false
  | some path =>
      if UInt32.ofNat inUrl.length - 2 < UInt32.ofNat path.length then false
      else inUrl.head? = some chSlash ∧ path <+: inUrl.drop 1 ∧ inUrl[path.length + 1]? = some chSlash

/-- How `execute` captures the URL. -/
def captureArgs : ModUrl.Args := ⟨sizeOfHttpBuf, 0, 0x00, by decide, by decide, by decide, by decide⟩

/-- `ModLocalFileSystem::execute` behind `canHandle`, with the outcome of the capture and what it
left in the buffer. The answers to other URLs, `retDirHtml` and `retFile`, come in as `other`. -/
def execute (c : Responder) (fsType : UInt8) (opendir : List UInt8 → Option (List Dirent))
    (other : Responder → (Int → UInt8) → Option Responder) (parsed : Except UInt16 BasicHeader)
    (buf : Int → UInt8) : Option (Responder × Bool) :=
  if c.method ≠ .get ∧ c.method ≠ .head then
    (c.sendResponseHeader2 405 Responder.htmlType (some 0) none).map fun r => (r.1, true)
  else
    (ModUrl.execute2 c parsed).bind fun r =>
      if !r.2 then some (r.1, true)
      else if (UrlReader.findKeyValue (bufText buf) (ascii "list")).isSome then
        (retDirJson r.1 fsType opendir buf).map (·, true)
      else (other r.1 buf).map (·, true)

def inPath (c : UInt8) : Bool := !(c == chQuestion || c == chHash)

/-- A path without a slash at its end. -/
def trim (path : List UInt8) : List UInt8 :=
  if path.getLast? = some chSlash then path.dropLast else path

/-- The path of a URL, without its query and a slash at its end. -/
def pathOf (url : List UInt8) : List UInt8 := trim (url.takeWhile inPath)

/-- The document names the directory and has one element for each of its entries, with its name. -/
structure Says (dir : List UInt8) (entries : List Dirent) (v : Value) : Prop where
  dir : v.member (ascii "dir") = some (.str dir)
  list : ∃ vs, v.member (ascii "list") = some (.arr vs) ∧
    List.Forall₂ (fun (e : Dirent) v => v.member (ascii "name") = some (.str e.name)) entries vs

/-- With enough buffers `f` answers a GET by a header and the body. -/
def Delivers (f : Responder → Option Responder) (body : List UInt8) : Prop :=
  ∃ n, ∀ c sent data k, c.method = .get → c.Ready sent data (n + k) →
    ∃ c' head, f c = some c' ∧ c'.InBody .chunked (sent ++ (data ++ head)) body k

/-- What is asked of a listing, with what the capture left in the buffer: the path is that of the
URL, no store goes outside of the buffer, and the calls for the body, which use no entry that is
missing, write a document that says the directory. -/
structure Lists (fsType : FsType) (opendir : List UInt8 → Option (List Dirent)) (url : List UInt8)
    (buf : Int → UInt8) (f : Responder → Option Responder) : Prop where
  path : dirName buf = pathOf url
  inside : ∀ s ∈ cutPath buf (UrlReader.getPath (bufText buf)), 0 ≤ s.1 ∧ s.1 < sizeOfHttpBuf
  answer : ∃ calls v, listCalls fsType.code opendir buf = some calls ∧
    IsJson (calls.flatMap BodyCall.bytes) v ∧
    Says (pathOf url) ((opendir (pathOf url)).getD []) v ∧
    Delivers f (calls.flatMap BodyCall.bytes)

/-- A name that is printed as what it says. -/
def Clean (s : List UInt8) : Prop := Utf8 s ∧ ∀ c ∈ s, PlainChar c

instance (s : List UInt8) : Decidable (Clean s) := inferInstanceAs (Decidable (_ ∧ _))

/-- There is no such directory, or it has an entry, the type is `FST_SDFATFS`, and all names are
clean. -/
def Listable (fsType : FsType) (opendir : List UInt8 → Option (List Dirent)) (dir : List UInt8) : Prop :=
  Clean dir ∧ ∀ d, opendir dir = some d → fsType = .sdFatFs ∧ d ≠ [] ∧ ∀ e ∈ d, Clean e.name

theorem bufText_ne_zero (buf : Int → UInt8) : ∀ c ∈ bufText buf, c ≠ 0 := by
  intro c hc
  simpa using List.mem_takeWhile_imp hc

theorem length_bufText (buf : Int → UInt8) : (bufText buf).length ≤ sizeOfHttpBuf := by
  refine ((List.takeWhile_prefix _).length_le).trans ?_
  simp

/-- A C string that fits is what stands in the buffer. -/
theorem bufText_eq {buf : Int → UInt8} {t : List UInt8} (hz : ∀ c ∈ t, c ≠ 0)
    (hlen : t.length < sizeOfHttpBuf) (hbuf : ∀ (i : Nat) (hi : i < t.length), buf i = t[i])
    (hend : buf t.length = 0) : bufText buf = t := by
  have htake : ((List.range sizeOfHttpBuf).map fun i : Nat => buf i).take t.length = t := by
    refine List.ext_getElem (by simpa using hlen.le) fun i hi hi' => ?_
    simpa using hbuf i hi'
  have hdrop : ((List.range sizeOfHttpBuf).map fun i : Nat => buf i).drop t.length =
      0 :: ((List.range sizeOfHttpBuf).map fun i : Nat => buf i).drop (t.length + 1) := by
    rw [List.drop_eq_getElem_cons (by simpa using hlen)]
    simp [hend]
  rw [bufText, cString, ← List.take_append_drop t.length (List.map _ (List.range _)), htake, hdrop,
    List.takeWhile_append_of_pos fun c hc => bne_iff_ne.mpr (hz c hc)]
  simp

/-- The stores that cut a path leave it without its slash, and none goes in front of it. -/
theorem cutPath_spec {buf : Int → UInt8} {path : List UInt8} (hne : path ≠ [])
    (hz : ∀ c ∈ path, c ≠ 0) (hlen : path.length < sizeOfHttpBuf)
    (hbuf : ∀ (i : Nat) (hi : i < path.length), buf i = path[i]) :
    bufText (Stores.run buf (cutPath buf path.length)) = trim path ∧
      ∀ s ∈ cutPath buf path.length, 0 ≤ s.1 ∧ s.1 < sizeOfHttpBuf := by
  have hpos := List.length_pos_iff.mpr hne
  have hlast : Function.update buf (path.length : Int) 0 (path.length - 1) =
      path[path.length - 1] := by
    rw [Function.update_of_ne (by omega)]
    have hcast : ((path.length : Int) - 1) = ((path.length - 1 : Nat) : Int) := by omega
    rw [hcast]
    exact hbuf _ (by omega)
  have hget : path.getLast? = some path[path.length - 1] := by
    rw [List.getLast?_eq_getElem?]
    exact List.getElem?_eq_getElem (by omega)
  rw [cutPath, hlast, trim, hget]
  by_cases hslash : path[path.length - 1] = chSlash
  · rw [if_pos hslash, if_pos (congrArg some hslash)]
    refine ⟨bufText_eq ?_ ?_ ?_ ?_, ?_⟩
    · exact fun c hc => hz c (List.dropLast_subset _ hc)
    · rw [List.length_dropLast]
      omega
    · intro i hi
      rw [List.length_dropLast] at hi
      show Function.update (Function.update buf _ 0) _ 0 (i : Int) = _
      rw [Function.update_of_ne (by omega), Function.update_of_ne (by omega), hbuf i (by omega),
        List.getElem_dropLast]
    · have hcast : ((path.dropLast.length : Nat) : Int) = path.length - 1 := by
        rw [List.length_dropLast]
        omega
      rw [hcast]
      exact Function.update_self ..
    · intro s hs
      rcases List.mem_cons.mp hs with rfl | hs
      · exact ⟨by simp, by simpa using hlen⟩
      · rw [List.mem_singleton.mp hs]
        constructor
        · show (0 : Int) ≤ path.length - 1
          omega
        · show (path.length : Int) - 1 < _
          omega
  · rw [if_neg hslash, if_neg fun h => hslash (Option.some.inj h)]
    refine ⟨bufText_eq hz hlen ?_ ?_, ?_⟩
    · intro i hi
      show Function.update buf _ 0 (i : Int) = _
      rw [Function.update_of_ne (by omega), hbuf i hi]
    · exact Function.update_self ..
    · intro s hs
      rw [List.mem_singleton.mp hs]
      exact ⟨by simp, by simpa using hlen⟩

/-- The URL as the buffer holds it. -/
def captured (url : List UInt8) : List UInt8 := url.filter (· ≠ 0)

section

variable {url pushed : List UInt8} {reads : List (List UInt8)} {out : BasicHeader}

theorem captured_holds (h : UrlRequest url pushed reads)
    (hok : (moduleParse ModUrl.urlHandler out captureArgs.start .get pushed reads).ok = true) :
    (captured url).length < sizeOfHttpBuf ∧ ModUrl.Holds
      (moduleParse ModUrl.urlHandler out captureArgs.start .get pushed reads).parser.user.urlBuf
      (captured url ++ [0]) := by
  obtain ⟨huser, hrun⟩ := moduleParse_url ModUrl.urlHandler out captureArgs.start .get h
  have htakes := ModUrl.takes_start captureArgs url
  have htaken : ModUrl.taken captureArgs.mode (url.drop captureArgs.passPrefixLen.toNat) =
      captured url := rfl
  rw [htaken] at htakes
  have hfits : ((captured url).length : Int) < captureArgs.lengthBuf := by
    by_contra hlong
    obtain ⟨hno, -⟩ := htakes.tooLong (show captureArgs.lengthBuf ≤ 0 + _ by omega)
    exact Bool.false_ne_true (hno.symm.trans (hrun hok))
  refine ⟨?_, ?_⟩
  · have hbuf : captureArgs.lengthBuf = sizeOfHttpBuf := rfl
    omega
  · rw [huser]
    exact htakes.holds hfits

theorem captured_ne_zero : ∀ c ∈ captured url, c ≠ 0 := by
  intro c hc
  simpa using (List.mem_filter.mp hc).2

theorem captured_cons {c : UInt8} (hc : c ≠ 0) (cs : List UInt8) :
    captured (c :: cs) = c :: captured cs := List.filter_cons_of_pos (by simpa using hc)

/-- The path in the buffer. -/
theorem takeWhile_captured : (captured url).takeWhile inPath = captured (url.takeWhile inPath) := by
  induction url with
  | nil => rfl
  | cons c url ih =>
    by_cases hc : c = 0
    · subst hc
      exact ih
    · rw [captured_cons hc]
      by_cases hin : inPath c = true
      · rw [List.takeWhile_cons_of_pos hin, List.takeWhile_cons_of_pos hin, captured_cons hc, ih]
      · rw [List.takeWhile_cons_of_neg hin, List.takeWhile_cons_of_neg hin]
        rfl

/-- A request that the module takes begins with a slash. -/
theorem slash_of_canHandle {path : Option (List UInt8)} (h : UrlRequest url pushed reads)
    (hcan : canHandle path (cString pushed) = true) : ∃ rest, url = chSlash :: rest := by
  cases path with
  | none => cases hcan
  | some path =>
    rw [canHandle] at hcan
    split at hcan
    · cases hcan
    · obtain ⟨hslash, -⟩ := of_decide_eq_true hcan
      obtain ⟨s, hs⟩ := List.head?_eq_some_iff.mp hslash
      have hfront : cString pushed <+: url := (List.takeWhile_prefix _).trans h.front
      obtain ⟨t, rfl⟩ := hfront
      exact ⟨s ++ t, by rw [hs]; rfl⟩

/-- The path that is looked up, and where the stores go. -/
theorem dirName_eq {path : Option (List UInt8)} (h : UrlRequest url pushed reads)
    (hcan : canHandle path (cString pushed) = true) (mem : Int → UInt8)
    (hok : (moduleParse ModUrl.urlHandler out captureArgs.start .get pushed reads).ok = true)
    {buf : Int → UInt8} (hbuf : buf = Stores.run mem
      (moduleParse ModUrl.urlHandler out captureArgs.start .get pushed reads).parser.user.urlBuf) :
    dirName buf = trim (captured (url.takeWhile inPath)) ∧
      ∀ s ∈ cutPath buf (UrlReader.getPath (bufText buf)), 0 ≤ s.1 ∧ s.1 < sizeOfHttpBuf := by
  obtain ⟨hlen, hholds⟩ := captured_holds h hok
  have hget : ∀ (i : Nat) (hi : i < (captured url).length), buf i = (captured url)[i] := by
    intro i hi
    rw [hbuf, hholds mem i (by rw [List.length_append]; omega), List.getElem_append_left hi]
  have hend : buf (captured url).length = 0 := by
    rw [hbuf, hholds mem (captured url).length (by simp)]
    simp
  have htext : bufText buf = captured url := bufText_eq captured_ne_zero hlen hget hend
  have hpath : UrlReader.getPath (bufText buf) = (captured (url.takeWhile inPath)).length := by
    rw [htext, ← takeWhile_captured]
    rfl
  obtain ⟨t, ht⟩ : captured (url.takeWhile inPath) <+: captured url := by
    rw [← takeWhile_captured]
    exact List.takeWhile_prefix _
  obtain ⟨rest, rfl⟩ := slash_of_canHandle h hcan
  have hle : (captured ((chSlash :: rest).takeWhile inPath)).length ≤
      (captured (chSlash :: rest)).length := by
    rw [← ht, List.length_append]
    omega
  rw [dirName, hpath]
  refine cutPath_spec ?_ captured_ne_zero (by omega) fun i hi => ?_
  · rw [List.takeWhile_cons_of_pos (by decide)]
    exact List.cons_ne_nil _ _
  · rw [hget i (by omega)]
    simp only [← ht, List.getElem_append_left hi]

/-- A path without a NUL is looked up as it is. -/
theorem captured_of_trim {path : List UInt8} (hz : ∀ c ∈ trim path, c ≠ 0) : captured path = path := by
  refine List.filter_eq_self.mpr fun c hc => decide_eq_true ?_
  unfold trim at hz
  split at hz
  · next hlast =>
    obtain ⟨front, rfl⟩ := List.getLast?_eq_some_iff.mp hlast
    rw [List.dropLast_concat] at hz
    rcases List.mem_append.mp hc with hc | hc
    · exact hz c hc
    · rw [List.mem_singleton.mp hc]
      decide
  · exact hz c hc

end

theorem limited_text {s : List UInt8} (hz : ∀ c ∈ s, c ≠ 0) (hlen : s.length ≤ 0x7fffffff) :
    limited s 0x7fffffff = s := by
  rw [limited, cString_of_ne_zero hz]
  exact List.take_of_length_le hlen

theorem ofFileName_mem (name : List UInt8) :
    MimeType.ofFileName name ∈ MimeType.defaultMimetype :: MimeType.table.map Prod.snd := by
  unfold MimeType.ofFileName
  split
  · exact List.mem_cons_self
  · next ext _ =>
    cases hfind : MimeType.table.find? fun e => stricmp e.1 ext == 0 with
    | none => exact List.mem_cons_self
    | some e =>
      exact List.mem_cons_of_mem _ (List.mem_map_of_mem (List.mem_of_find?_eq_some hfind))

/-- A text that is printed as it is and is one of ASCII. -/
structure Printable (t : List UInt8) : Prop where
  plain : ∀ c ∈ t, PlainChar c
  ascii : ∀ c ∈ t, c < 0x80
  short : t.length ≤ 64

theorem Printable.limited {t : List UInt8} (h : Printable t) : limited t 0x7fffffff = t := by
  refine limited_text (fun c hc h0 => ?_) (h.short.trans (by decide))
  exact absurd (h.plain c hc).1 (by rw [h0]; decide)

theorem printable_ofFileName (name : List UInt8) : Printable (MimeType.ofFileName name) := by
  have hall : ∀ t ∈ MimeType.defaultMimetype :: MimeType.table.map Prod.snd,
      (∀ c ∈ t, PlainChar c) ∧ (∀ c ∈ t, c < 0x80) ∧ t.length ≤ 64 := by decide
  obtain ⟨hplain, hascii, hshort⟩ := hall _ (ofFileName_mem name)
  exact ⟨hplain, hascii, hshort⟩

/-- The type and the size that are printed for an entry. -/
def mtypeText (fsType : FsType) (e : Dirent) : List UInt8 :=
  match fsType with
  | .default => MimeType.ofFileName e.name
  | .sdFatFs => mtypeOf e

def sizeText (fsType : FsType) (e : Dirent) : List UInt8 :=
  match fsType with
  | .default => ascii "undefined"
  | .sdFatFs => Decimal.decimal (sizeOf e).toNat

theorem printable_mtypeText (fsType : FsType) (e : Dirent) : Printable (mtypeText fsType e) := by
  cases fsType with
  | default => exact printable_ofFileName _
  | sdFatFs =>
    unfold mtypeText mtypeOf
    dsimp only
    split
    · exact ⟨by decide, by decide, by decide⟩
    · exact printable_ofFileName _

theorem ascii_sizeText (fsType : FsType) (e : Dirent) : ∀ c ∈ sizeText fsType e, c < 0x80 := by
  cases fsType with
  | default =>
    show ∀ c ∈ ascii "undefined", c < 0x80
    decide
  | sdFatFs =>
    intro c hc
    have hb := Decimal.isDigit_iff.mp (Decimal.isDigit_decimal _ c hc)
    refine UInt8.lt_iff_toNat_lt.mpr ?_
    change _ < 128
    omega

/-- What stands behind the name of an entry. -/
def entryRest (fsType : FsType) (e : Dirent) (rest : List UInt8) : List UInt8 :=
  mtypeHead ++ (mtypeText fsType e ++ (sizeHead ++ (sizeText fsType e ++ 0x7d :: rest)))

def entryText (fsType : FsType) (e : Dirent) : List UInt8 :=
  nameHead ++ (e.name ++ entryRest fsType e [])

def entryCall : FsType → Dirent → BodyCall
  | .default => defaultCall
  | .sdFatFs => fatCall

theorem entryCall_bytes (fsType : FsType) (e : Dirent) :
    (entryCall fsType e).bytes = entryText fsType e := by
  have hname : limited e.name 0x7fffffff = e.name :=
    limited_text e.name_text (e.name_length.trans (by decide))
  have hmtype := (printable_mtypeText fsType e).limited
  cases fsType with
  | default =>
    have hmtype : limited (MimeType.ofFileName e.name) 0x7fffffff = MimeType.ofFileName e.name := hmtype
    simp only [entryCall, defaultCall, BodyCall.bytes, formatText_default, Option.getD_some, hname,
      hmtype]
    rfl
  | sdFatFs =>
    have hmtype : limited (mtypeOf e) 0x7fffffff = mtypeOf e := hmtype
    simp only [entryCall, fatCall, BodyCall.bytes, formatText_fat, Option.getD_some, hname, hmtype,
      uitoa_ten]
    rfl

theorem listEntries_code (fsType : FsType) (d : List Dirent) :
    listEntries fsType.code d = listLoop (entryCall fsType) d.head? d.tail := by
  cases fsType <;> rfl

theorem bytes_commaCall : commaCall.bytes = [0x2c] := by
  rw [commaCall, BodyCall.bytes, formatText, textLoop_all (by decide)]
  rfl

theorem bytes_closeCall : closeCall.bytes = [0x5d, 0x7d] := by
  rw [closeCall, BodyCall.bytes, formatText, textLoop_all (by decide)]
  rfl

/-- The loop writes the entries with commas between them. -/
theorem listLoop_text (entry : Dirent → BodyCall) (p : Dirent) (d : List Dirent) :
    ∃ calls, listLoop entry (some p) d = some calls ∧
      calls.flatMap BodyCall.bytes = Json.commaText ((p :: d).map fun e => (entry e).bytes) := by
  induction d generalizing p with
  | nil => exact ⟨[entry p], rfl, by simp [Json.commaText]⟩
  | cons q d ih =>
    obtain ⟨calls, hloop, htext⟩ := ih q
    refine ⟨entry p :: commaCall :: calls, by rw [listLoop, hloop]; rfl, ?_⟩
    rw [List.flatMap_cons, List.flatMap_cons, bytes_commaCall, htext]
    rfl

/-- A document with its list. -/
def document (dir : List UInt8) (status : Nat) (list : List UInt8) : List UInt8 :=
  dirHead ++ (dir ++ (ascii "\",\"status\":" ++ (Decimal.decimal status ++
    (ascii ",\"list\":[" ++ (list ++ [0x5d, 0x7d])))))

theorem foundTail_eq : foundTail = ascii "\",\"status\":" ++ (Decimal.decimal 200 ++ ascii ",\"list\":[") := by
  have hdec : Decimal.decimal 200 = ascii "200" := (uitoa_ten 200).symm.trans (by decide)
  rw [hdec]
  rfl

theorem notFoundTail_eq : notFoundTail = ascii "\",\"status\":" ++ (Decimal.decimal 404 ++
    (ascii ",\"list\":[" ++ [0x5d, 0x7d])) := by
  have hdec : Decimal.decimal 404 = ascii "404" := (uitoa_ten 404).symm.trans (by decide)
  rw [hdec]
  rfl

theorem limited_dirName (buf : Int → UInt8) : limited (dirName buf) 0x7fffffff = dirName buf :=
  limited_text (bufText_ne_zero _) ((length_bufText _).trans (by decide))

section

variable {fsType : FsType} {opendir : List UInt8 → Option (List Dirent)} {buf : Int → UInt8}

theorem listCalls_none (h : opendir (dirName buf) = none) :
    ∃ calls, listCalls fsType.code opendir buf = some calls ∧
      calls.flatMap BodyCall.bytes = document (dirName buf) 404 [] := by
  refine ⟨_, by simp only [listCalls, h]; rfl, ?_⟩
  rw [List.flatMap_singleton, notFoundCall, BodyCall.bytes,
    formatText_string (by decide) (by decide), limited_dirName, notFoundTail_eq]
  rfl

/-- The first entry of an empty directory is missing, and used. -/
theorem listCalls_empty (h : opendir (dirName buf) = some []) :
    listCalls fsType.code opendir buf = none := by
  simp only [listCalls, h, listEntries_code]
  rfl

theorem listCalls_cons {e : Dirent} {es : List Dirent} (h : opendir (dirName buf) = some (e :: es)) :
    ∃ calls, listCalls fsType.code opendir buf = some calls ∧ calls.flatMap BodyCall.bytes =
      document (dirName buf) 200 (Json.commaText ((e :: es).map (entryText fsType))) := by
  obtain ⟨calls, hloop, htext⟩ := listLoop_text (entryCall fsType) e es
  refine ⟨foundCall (dirName buf) :: (calls ++ [closeCall]), ?_, ?_⟩
  · simp only [listCalls, h, listEntries_code, List.head?_cons, List.tail_cons, hloop, Option.map_some]
  · have hfound : (foundCall (dirName buf)).bytes = dirHead ++ (dirName buf ++ foundTail) := by
      rw [foundCall, BodyCall.bytes, formatText_string (by decide) (by decide), limited_dirName]
      rfl
    have hentries : (fun e => (entryCall fsType e).bytes) = entryText fsType :=
      funext (entryCall_bytes fsType)
    rw [List.flatMap_cons, List.flatMap_append, htext, hentries, List.flatMap_singleton,
      bytes_closeCall, hfound, foundTail_eq, document]
    simp only [List.append_assoc]

end

theorem document_eq (dir : List UInt8) (status : Nat) (list : List UInt8) :
    document dir status list = 0x7b :: 0x22 :: (ascii "dir" ++ 0x22 :: 0x3a :: 0x22 :: (dir ++ 0x22 ::
      ([0x2c] ++ 0x22 :: (ascii "status" ++ 0x22 :: 0x3a :: (Decimal.decimal status ++ 0x2c :: 0x22 ::
        (ascii "list" ++ 0x22 :: 0x3a :: 0x5b :: (list ++ [0x5d, 0x7d]))))))) := rfl

/-- Behind the directory a document has its status, and then its list. -/
theorem document_members (n : Nat) (m : List UInt8 × Value) (status : Nat) (list : List UInt8) :
    Json.listNext 0x7d (Json.members (n + 2)) m ([0x2c] ++ 0x22 :: (ascii "status" ++ 0x22 :: 0x3a ::
        (Decimal.decimal status ++ 0x2c :: 0x22 :: (ascii "list" ++ 0x22 :: 0x3a :: list)))) =
      ((Json.parseValue n list).bind fun p =>
        Json.listNext 0x7d (Json.members n) (ascii "list", p.1) p.2).map fun q =>
          (m :: (ascii "status", .num status 0) :: q.1, q.2) := by
  rw [List.singleton_append, Json.listNext_plain (by decide),
    Json.parseValue_decimal _ _ (Or.inl rfl), Option.bind_some, Json.listNext_plain (by decide),
    Option.map_map]
  rfl

/-- A document that names its directory is one of a plain name, and its list is read. -/
theorem read_document {dir list : List UInt8} {status : Nat} {v : Value}
    (h : Json.parse (document dir status list) = some v)
    (hdir : v.member (ascii "dir") = some (.str dir)) : (∀ c ∈ dir, PlainChar c) ∧
      ∃ n p, Json.parseValue n (0x5b :: (list ++ [0x5d, 0x7d])) = some p ∧
        v.member (ascii "list") = some p.1 := by
  rw [Json.parse] at h
  split at h
  · next v' u hread =>
    split_ifs at h
    obtain rfl := Option.some.inj h
    rw [document_eq] at hread
    obtain ⟨m, w, t, ms, -, hw, hnext, rfl, hmember⟩ := Json.member_first (by decide) hread
    obtain rfl : w = .str dir := Option.some.inj (hmember.symm.trans hdir)
    obtain ⟨hplain, rfl⟩ := Json.plain_of_parseValue (by decide) hw
    refine ⟨hplain, ?_⟩
    obtain _ | _ | n := m
    · cases hw
    · rw [List.singleton_append, Json.listNext_plain (by decide)] at hnext
      cases hnext
    · rw [document_members] at hnext
      obtain ⟨⟨ls, u'⟩, hlist, heq⟩ := Option.map_eq_some_iff.mp hnext
      obtain ⟨rfl, -⟩ := Prod.mk.inj heq
      obtain ⟨p, hp, hclose⟩ := Option.bind_eq_some_iff.mp hlist
      obtain ⟨ls', rfl⟩ := List.head?_eq_some_iff.mp (Json.listNext_head hclose)
      exact ⟨n, p, hp, rfl⟩
  · cases h

theorem parse_document {dir list : List UInt8} (status : Nat) {vs : List Value}
    (hdir : ∀ c ∈ dir, PlainChar c) (hlist : ∀ n, list.length < n →
      Json.parseValue n (0x5b :: (list ++ [0x5d, 0x7d])) = some (.arr vs, [0x7d])) :
    Json.parse (document dir status list) = some (.obj [(ascii "dir", .str dir),
      (ascii "status", .num status 0), (ascii "list", .arr vs)]) := by
  have hlen : list.length + 2 ≤ (document dir status list).length := by
    simp only [document, List.length_append, List.length_cons, List.length_nil]
    omega
  obtain ⟨n, hn⟩ : ∃ n, 2 * (document dir status list).length + 2 = n + 4 :=
    ⟨2 * (document dir status list).length - 2, by omega⟩
  have hread : Json.parseValue (n + 4) (document dir status list) = some (.obj [(ascii "dir", .str dir),
      (ascii "status", .num status 0), (ascii "list", .arr vs)], []) := by
    rw [document_eq, Json.parseValue_obj, Json.listOpen_cons _ (by decide) (by decide),
      Json.members_plain (by decide), Json.parseValue_plain hdir, Option.bind_some, document_members,
      hlist n (by omega), Option.bind_some]
    rfl
  rw [Json.parse, hn, hread]
  rfl

theorem entryRest_eq (fsType : FsType) (e : Dirent) (s : List UInt8) :
    entryText fsType e ++ s = 0x7b :: 0x22 :: (ascii "name" ++ 0x22 :: 0x3a :: 0x22 :: (e.name ++ 0x22 ::
      ([0x2c] ++ 0x22 :: (ascii "mtype" ++ 0x22 :: 0x3a :: 0x22 :: (mtypeText fsType e ++ 0x22 ::
        ([0x2c] ++ 0x22 :: (ascii "size" ++ 0x22 :: 0x3a :: (sizeText fsType e ++ 0x7d :: s)))))))) := by
  have hname : nameHead = 0x7b :: 0x22 :: (ascii "name" ++ [0x22, 0x3a, 0x22]) := rfl
  have hmtype : mtypeHead = 0x22 :: 0x2c :: 0x22 :: (ascii "mtype" ++ [0x22, 0x3a, 0x22]) := rfl
  have hsize : sizeHead = 0x22 :: 0x2c :: 0x22 :: (ascii "size" ++ [0x22, 0x3a]) := rfl
  rw [entryText, entryRest, hname, hmtype, hsize]
  simp

/-- Behind the name an entry has its type, and then its size. -/
theorem entry_members (fsType : FsType) (e : Dirent) (n : Nat) (m : List UInt8 × Value) (s : List UInt8) :
    Json.listNext 0x7d (Json.members (n + 2)) m ([0x2c] ++ 0x22 :: (ascii "mtype" ++ 0x22 :: 0x3a ::
        0x22 :: (mtypeText fsType e ++ 0x22 :: ([0x2c] ++ 0x22 :: (ascii "size" ++ 0x22 :: 0x3a :: s))))) =
      ((Json.parseValue n s).bind fun p =>
        Json.listNext 0x7d (Json.members n) (ascii "size", p.1) p.2).map fun q =>
          (m :: (ascii "mtype", .str (mtypeText fsType e)) :: q.1, q.2) := by
  rw [List.singleton_append, Json.listNext_plain (by decide),
    Json.parseValue_plain (printable_mtypeText fsType e).plain, Option.bind_some,
    List.singleton_append, Json.listNext_plain (by decide), Option.map_map]
  rfl

/-- The word `undefined` is no value. -/
theorem parseValue_undefined (n : Nat) (s : List UInt8) :
    Json.parseValue n (ascii "undefined" ++ s) = none := by
  cases n <;> rfl

/-- An entry that says its name is one of a plain name and of `FST_SDFATFS`. -/
theorem read_entry {fsType : FsType} {e : Dirent} {n : Nat} {c : UInt8} {s u : List UInt8} {v : Value}
    (h : Json.parseValue n (entryText fsType e ++ c :: s) = some (v, u))
    (hname : v.member (ascii "name") = some (.str e.name)) :
    (fsType = .sdFatFs ∧ ∀ c ∈ e.name, PlainChar c) ∧ u = c :: s := by
  rw [entryRest_eq] at h
  obtain ⟨m, w, t, ms, -, hw, hnext, rfl, hmember⟩ := Json.member_first (by decide) h
  obtain rfl : w = .str e.name := Option.some.inj (hmember.symm.trans hname)
  obtain ⟨hplain, rfl⟩ := Json.plain_of_parseValue (by decide) hw
  obtain _ | _ | n := m
  · cases hw
  · rw [List.singleton_append, Json.listNext_plain (by decide)] at hnext
    cases hnext
  · rw [entry_members] at hnext
    obtain ⟨⟨ls, u'⟩, hsize, heq⟩ := Option.map_eq_some_iff.mp hnext
    obtain ⟨-, rfl⟩ := Prod.mk.inj heq
    cases fsType with
    | default =>
      have hnone : Json.parseValue n (sizeText .default e ++ 0x7d :: c :: s) = none :=
        parseValue_undefined n _
      rw [hnone] at hsize
      cases hsize
    | sdFatFs =>
      refine ⟨⟨rfl, hplain⟩, ?_⟩
      cases n with
      | zero => cases hsize
      | succ n =>
        rw [sizeText, Json.parseValue_decimal _ _ (Or.inr (Or.inr rfl)), Option.bind_some] at hsize
        exact (Prod.mk.inj (Option.some.inj hsize)).2.symm

def entryValue (e : Dirent) : Value :=
  .obj [(ascii "name", .str e.name), (ascii "mtype", .str (mtypeOf e)),
    (ascii "size", .num (sizeOf e).toNat 0)]

theorem parse_entry {e : Dirent} (hplain : ∀ c ∈ e.name, PlainChar c) {n : Nat} (hn : 5 ≤ n) {c : UInt8}
    (s : List UInt8) :
    Json.parseValue n (entryText .sdFatFs e ++ c :: s) = some (entryValue e, c :: s) := by
  obtain ⟨n, rfl⟩ := Nat.exists_eq_add_of_le' hn
  rw [entryRest_eq, Json.parseValue_obj, Json.listOpen_cons _ (by decide) (by decide),
    Json.members_plain (by decide), Json.parseValue_plain hplain, Option.bind_some, entry_members,
    sizeText, Json.parseValue_decimal _ _ (Or.inr (Or.inr rfl)), Option.bind_some]
  rfl

theorem ascii_decimal (n : Nat) : ∀ c ∈ Decimal.decimal n, c < 0x80 := by
  intro c hc
  have hb := Decimal.isDigit_iff.mp (Decimal.isDigit_decimal n c hc)
  refine UInt8.lt_iff_toNat_lt.mpr ?_
  change _ < 128
  omega

theorem utf8_document (dir list : List UInt8) (status : Nat) :
    Utf8 (document dir status list) ↔ Utf8 dir ∧ Utf8 list := by
  have hstatus : ascii "\",\"status\":" = 0x22 :: ascii ",\"status\":" := rfl
  have hclose : Utf8 [0x7d] := Json.utf8_ascii (by decide)
  rw [document, hstatus, List.cons_append, Json.utf8_ascii_append (by decide),
    Json.utf8_append_ascii (by decide), Json.utf8_ascii_append (by decide),
    Json.utf8_ascii_append (ascii_decimal status), Json.utf8_ascii_append (by decide),
    Json.utf8_append_ascii (by decide), and_iff_left hclose]

theorem utf8_entryText (fsType : FsType) (e : Dirent) : Utf8 (entryText fsType e) ↔ Utf8 e.name := by
  have hmtype : mtypeHead = 0x22 :: ascii ",\"mtype\":\"" := rfl
  have hrest : Utf8 (ascii ",\"mtype\":\"" ++ (mtypeText fsType e ++ (sizeHead ++
      (sizeText fsType e ++ [0x7d])))) := by
    rw [Json.utf8_ascii_append (by decide), Json.utf8_ascii_append (printable_mtypeText fsType e).ascii,
      Json.utf8_ascii_append (by decide), Json.utf8_ascii_append (ascii_sizeText fsType e)]
    exact Json.utf8_ascii (by decide)
  rw [entryText, entryRest, hmtype, List.cons_append, Json.utf8_ascii_append (by decide),
    Json.utf8_append_ascii (by decide), and_iff_left hrest]

theorem says_notFound (dir : List UInt8) :
    (∃ v, IsJson (document dir 404 []) v ∧ Says dir [] v) ↔ Clean dir := by
  have hutf : Utf8 (document dir 404 []) ↔ Utf8 dir := by
    rw [utf8_document]
    exact and_iff_left (Json.utf8_ascii fun b hb => nomatch hb)
  constructor
  · rintro ⟨v, ⟨hu, hparse⟩, hsays⟩
    exact ⟨hutf.mp hu, (read_document hparse hsays.dir).1⟩
  · rintro ⟨hu, hplain⟩
    have hlist : ∀ n, ([] : List UInt8).length < n →
        Json.parseValue n (0x5b :: ([] ++ [0x5d, 0x7d])) = some (.arr [], [0x7d]) := by
      intro n hn
      obtain ⟨n, rfl⟩ := Nat.exists_eq_add_of_lt hn
      rfl
    exact ⟨_, ⟨hutf.mpr hu, parse_document 404 hplain hlist⟩, rfl, [], rfl, .nil⟩

theorem says_found {fsType : FsType} {d : List Dirent} (hne : d ≠ []) (dir : List UInt8) :
    (∃ v, IsJson (document dir 200 (Json.commaText (d.map (entryText fsType)))) v ∧ Says dir d v) ↔
      Clean dir ∧ fsType = .sdFatFs ∧ ∀ e ∈ d, Clean e.name := by
  have hutf : Utf8 (document dir 200 (Json.commaText (d.map (entryText fsType)))) ↔
      Utf8 dir ∧ ∀ e ∈ d, Utf8 e.name := by
    simp only [utf8_document, Json.utf8_commaText, List.forall_mem_map, utf8_entryText]
  obtain ⟨e, es, rfl⟩ := List.exists_cons_of_ne_nil hne
  have hopen : ∀ n, Json.parseValue (n + 1) (0x5b :: (Json.commaText ((e :: es).map (entryText fsType)) ++
      [0x5d, 0x7d])) = (Json.elements n (Json.commaText ((e :: es).map (entryText fsType)) ++
        [0x5d, 0x7d])).map fun p => (.arr p.1, p.2) := by
    intro n
    have hhead : ∃ t, Json.commaText ((e :: es).map (entryText fsType)) ++ [0x5d, 0x7d] = 0x7b :: t := by
      cases es with
      | nil => exact ⟨_, rfl⟩
      | cons e' es => exact ⟨_, rfl⟩
    obtain ⟨t, ht⟩ := hhead
    rw [ht]
    exact congrArg (Option.map _) (Json.listOpen_cons _ (by decide) (by decide) t)
  constructor
  · rintro ⟨v, ⟨hu, hparse⟩, hsays⟩
    obtain ⟨hudir, hunames⟩ := hutf.mp hu
    obtain ⟨hplain, n, p, hp, hlist⟩ := read_document hparse hsays.dir
    obtain ⟨vs, hvs, hnames⟩ := hsays.list
    obtain ⟨w, u⟩ := p
    obtain rfl : w = .arr vs := Option.some.inj (hlist.symm.trans hvs)
    cases n with
    | zero => cases hp
    | succ n =>
      rw [hopen] at hp
      obtain ⟨⟨vs', u'⟩, hread, heq⟩ := Option.map_eq_some_iff.mp hp
      obtain rfl : vs' = vs := Value.arr.inj (Prod.mk.inj heq).1
      have hall := Json.elements_read (P := fun e => fsType = .sdFatFs ∧ ∀ c ∈ e.name, PlainChar c) hne
        (fun a _ n c s v u _ h hname => read_entry h hname) hread hnames
      exact ⟨⟨hudir, hplain⟩, (hall e List.mem_cons_self).1, fun x hx => ⟨hunames x hx, (hall x hx).2⟩⟩
  · rintro ⟨⟨hudir, hplain⟩, rfl, hclean⟩
    have hlong : ∀ t ∈ (e :: es).map (entryText .sdFatFs), 5 < t.length := by
      intro t ht
      obtain ⟨x, -, rfl⟩ := List.mem_map.mp ht
      have hhead : nameHead.length = 9 := rfl
      rw [entryText, List.length_append]
      omega
    have hlen := Json.length_le_commaText (by simp) hlong
    have hlist : ∀ n, (Json.commaText ((e :: es).map (entryText .sdFatFs))).length < n →
        Json.parseValue n (0x5b :: (Json.commaText ((e :: es).map (entryText .sdFatFs)) ++ [0x5d, 0x7d])) =
          some (.arr ((e :: es).map entryValue), [0x7d]) := by
      intro n hn
      obtain ⟨n, rfl⟩ : ∃ m, n = m + 1 := ⟨n - 1, by omega⟩
      rw [List.length_map] at hlen
      rw [hopen, Json.elements_comma (k := 5) hne (fun a ha n c s hn _ =>
        parse_entry (hclean a ha).2 hn s) (by omega) [0x7d]]
      rfl
    refine ⟨_, ⟨hutf.mpr ⟨hudir, fun x hx => (hclean x hx).1⟩, parse_document 200 hplain hlist⟩, rfl,
      (e :: es).map entryValue, rfl, ?_⟩
    rw [List.forall₂_map_right_iff]
    exact List.forall₂_same.mpr fun x _ => rfl

/-- What comes before an answer sends nothing. -/
theorem Delivers.comp {f : Responder → Option Responder} {g : Responder → Responder}
    {body : List UInt8} (hf : Delivers f body) (hg : ∀ c, (g c).method = c.method ∧
      (g c).stream = c.stream ∧ (g c).connection.resStatus = c.connection.resStatus) :
    Delivers (fun c => f (g c)) body := by
  obtain ⟨n, hn⟩ := hf
  refine ⟨n, fun c sent data k hm hready => ?_⟩
  obtain ⟨hm', hstream, hstatus⟩ := hg c
  exact hn (g c) sent data k (hm'.trans hm) (hready.congr hstream hstatus)

theorem Delivers.congr {f g : Responder → Option Responder} {body : List UInt8}
    (hf : Delivers f body) (hfg : ∀ c, c.method = .get → g c = f c) : Delivers g body := by
  obtain ⟨n, hn⟩ := hf
  refine ⟨n, fun c sent data k hm hready => ?_⟩
  rw [hfg c hm]
  exact hn c sent data k hm hready

theorem Delivers.continued {f : Responder → Option Responder} {body : List UInt8}
    (hf : Delivers f body) : Delivers (fun c => f c.send100Continue.1) body := by
  obtain ⟨n, hn⟩ := hf
  refine ⟨25 + n, fun c sent data k hm hready => ?_⟩
  rw [Nat.add_assoc] at hready
  obtain ⟨c', hsend, hready', hm', -⟩ := hready.send100Continue
  obtain ⟨c'', head, hrun, hbody⟩ := hn c' sent _ k (hm'.trans hm) hready'
  refine ⟨c'', Responder.continueText ++ head, ?_, ?_⟩
  · show f c.send100Continue.1 = some c''
    rw [hsend]
    exact hrun
  · rwa [← List.append_assoc data]

theorem delivers_retDirJson {fsType : UInt8} {opendir : List UInt8 → Option (List Dirent)}
    {buf : Int → UInt8} {calls : List BodyCall} (h : listCalls fsType opendir buf = some calls) :
    Delivers (fun c => retDirJson c fsType opendir buf) (calls.flatMap BodyCall.bytes) := by
  let head := fun isClose => Responder.headText isClose 200 (ascii "application/json") none
    (some Responder.jsonLines)
  refine ⟨(head true).length + (head false).length + (calls.flatMap BodyCall.bytes).length,
    fun c sent data k hm hready => ?_⟩
  have hroom : c.Ready sent data ((head c.closes).length +
      ((calls.flatMap BodyCall.bytes).length + k)) := by
    refine ⟨hready.status, hready.pending.mono ?_⟩
    cases c.closes
    · omega
    · omega
  have htype : IsText (ascii "application/json") := by
    unfold IsText
    decide
  have hlines : ∀ header, some Responder.jsonLines = some header → IsText header := by
    intro header hheader
    obtain rfl := Option.some.inj hheader
    unfold IsText
    decide
  obtain ⟨c1, hsend, hbody, hm1⟩ := hroom.sendResponseHeader2 htype hlines
  obtain ⟨c2, ⟨hcalls, -⟩, hbody2, -⟩ := hbody.sends
  refine ⟨c2, head c.closes, ?_, hbody2⟩
  have hjson : c.sendJsonHeader = some (c1, true) := hsend
  simp only [retDirJson, hjson, Option.bind_some, Bool.not_true, Bool.false_eq_true, if_false,
    hm1.trans hm, if_true, h, hcalls]

/-- A GET of a URL with the key is answered by the listing. -/
theorem delivers_execute {fsType : UInt8} {opendir : List UInt8 → Option (List Dirent)}
    (other : Responder → (Int → UInt8) → Option Responder) (h : BasicHeader)
    {buf : Int → UInt8} {calls : List BodyCall} (hcalls : listCalls fsType opendir buf = some calls)
    (hlist : (UrlReader.findKeyValue (bufText buf) (ascii "list")).isSome = true) :
    Delivers (fun c => (execute c fsType opendir other (.ok h) buf).map Prod.fst)
      (calls.flatMap BodyCall.bytes) := by
  have hfollow : Delivers (fun c => retDirJson (c.followHeader h) fsType opendir buf)
      (calls.flatMap BodyCall.bytes) :=
    (delivers_retDirJson hcalls).comp fun c => Responder.followHeader_facts c h
  have hrun : ∀ c c' : Responder, c.method = .get → ModUrl.execute2 c (.ok h) = some (c', true) →
      (execute c fsType opendir other (.ok h) buf).map Prod.fst = retDirJson c' fsType opendir buf := by
    intro c c' hm hgo
    rw [execute, if_neg (by simp [hm]), hgo, Option.bind_some, if_neg (by simp), if_pos hlist]
    exact Responder.map_pair_fst _ true
  by_cases hask : asksContinue h
  · refine ((hfollow.continued).comp (g := Responder.setReqStatusParsed) fun _ =>
      ⟨rfl, rfl, rfl⟩).congr fun c hm => ?_
    exact hrun c _ hm (by simp only [ModUrl.execute2, if_pos hask])
  · refine (hfollow.comp (g := Responder.setReqStatusParsed) fun _ => ⟨rfl, rfl, rfl⟩).congr
      fun c hm => ?_
    exact hrun c _ hm (by simp only [ModUrl.execute2, if_neg hask])

/-- A GET with the query key `list` is answered by the document of the directory of its path just
when the document can be printed: the path and the names need no escape, the sizes are those of
`FST_SDFATFS`, and a directory that is there has an entry. -/
theorem lists_iff (fsType : FsType) (opendir : List UInt8 → Option (List Dirent))
    (other : Responder → (Int → UInt8) → Option Responder) {path : Option (List UInt8)}
    {out : BasicHeader} {url pushed : List UInt8} {reads : List (List UInt8)}
    (h : UrlRequest url pushed reads) (hcan : canHandle path (cString pushed) = true)
    (mem buf : Int → UInt8)
    (hok : (moduleParse ModUrl.urlHandler out captureArgs.start .get pushed reads).ok = true)
    (hbuf : buf = Stores.run mem
      (moduleParse ModUrl.urlHandler out captureArgs.start .get pushed reads).parser.user.urlBuf)
    (hlist : (UrlReader.findKeyValue (bufText buf) (ascii "list")).isSome = true) :
    Lists fsType opendir url buf (fun c => (execute c fsType.code opendir other (ModUrl.outcome
      (moduleParse ModUrl.urlHandler out captureArgs.start .get pushed reads)) buf).map Prod.fst) ↔
      Listable fsType opendir (pathOf url) := by
  obtain ⟨hdir, hinside⟩ := dirName_eq h hcan mem hok hbuf
  have hparsed : ModUrl.outcome (moduleParse ModUrl.urlHandler out captureArgs.start .get pushed reads) =
      .ok (moduleParse ModUrl.urlHandler out captureArgs.start .get pushed reads).parser.out :=
    if_pos hok
  rw [hparsed]
  constructor
  · rintro ⟨hpath, -, calls, v, hcalls, hjson, hsays, -⟩
    rw [← hpath] at hsays ⊢
    cases hopen : opendir (dirName buf) with
    | none =>
      rw [hopen] at hsays
      obtain ⟨calls', hcalls', htext⟩ := @listCalls_none fsType opendir buf hopen
      obtain rfl := Option.some.inj (hcalls.symm.trans hcalls')
      rw [htext] at hjson
      exact ⟨(says_notFound _).mp ⟨v, hjson, hsays⟩, fun d hd => nomatch hopen.symm.trans hd⟩
    | some d =>
      rw [hopen] at hsays
      cases d with
      | nil =>
        rw [listCalls_empty hopen] at hcalls
        cases hcalls
      | cons e es =>
        obtain ⟨calls', hcalls', htext⟩ := @listCalls_cons fsType opendir buf _ _ hopen
        obtain rfl := Option.some.inj (hcalls.symm.trans hcalls')
        rw [htext] at hjson
        obtain ⟨hclean, htype, hnames⟩ := (says_found (List.cons_ne_nil e es) _).mp ⟨v, hjson, hsays⟩
        refine ⟨hclean, fun d hd => ?_⟩
        obtain rfl := Option.some.inj (hopen.symm.trans hd)
        exact ⟨htype, List.cons_ne_nil _ _, hnames⟩
  · rintro ⟨hclean, hentries⟩
    have hpath : dirName buf = pathOf url := by
      rw [hdir, pathOf, captured_of_trim fun c hc h0 => ?_]
      exact absurd (hclean.2 c hc).1 (by rw [h0]; decide)
    refine ⟨hpath, hinside, ?_⟩
    rw [← hpath] at hclean hentries ⊢
    cases hopen : opendir (dirName buf) with
    | none =>
      obtain ⟨calls, hcalls, htext⟩ := @listCalls_none fsType opendir buf hopen
      obtain ⟨v, hjson, hsays⟩ := (says_notFound (dirName buf)).mpr hclean
      exact ⟨calls, v, hcalls, htext ▸ hjson, hsays, delivers_execute other _ hcalls hlist⟩
    | some d =>
      obtain ⟨htype, hne, hnames⟩ := hentries d hopen
      obtain ⟨e, es, rfl⟩ := List.exists_cons_of_ne_nil hne
      obtain ⟨calls, hcalls, htext⟩ := @listCalls_cons fsType opendir buf _ _ hopen
      obtain ⟨v, hjson, hsays⟩ := (says_found hne (dirName buf)).mpr ⟨hclean, htype, hnames⟩
      exact ⟨calls, v, hcalls, htext ▸ hjson, hsays, delivers_execute other _ hcalls hlist⟩

/-- A GET of the module at `/a/`. -/
theorem sampleList : UrlRequest (ascii "/a/?list") (ascii "/a/") [ascii "?list HTTP/1.1\r\n\r\n"] :=
  ⟨by decide, by decide, ⟨ascii "?list", by decide⟩, by decide, ⟨ascii "HTTP/1.1\r\n\r\n", by decide⟩⟩

/-- Its parse. -/
def sampleParse : BasicHeaderParser.StreamResult ModUrl.UrlParser :=
  moduleParse ModUrl.urlHandler zeroHeader captureArgs.start .get (ascii "/a/")
    [ascii "?list HTTP/1.1\r\n\r\n"]

def sampleBuf : Int → UInt8 := Stores.run (fun _ => 0) sampleParse.parser.user.urlBuf

def sampleFile : Dirent := ⟨ascii "b.txt", 0x20, 7, by decide, by decide⟩

/-- The module with a directory, where nothing else is asked. -/
def sampleAnswer (fsType : FsType) (d : List Dirent) (c : Responder) : Option Responder :=
  (execute c fsType.code (fun _ => some d) (fun c _ => some c) (ModUrl.outcome sampleParse)
    sampleBuf).map Prod.fst

theorem lists_file : Lists .sdFatFs (fun _ => some [sampleFile]) (ascii "/a/?list") sampleBuf
    (sampleAnswer .sdFatFs [sampleFile]) := by
  have hcan : canHandle (some (ascii "a")) (cString (ascii "/a/")) = true := by decide
  refine (lists_iff .sdFatFs (fun _ => some [sampleFile]) (fun c _ => some c) sampleList hcan
    (fun _ => 0) sampleBuf ?_ rfl ?_).mpr ⟨?_, ?_⟩
  · decide +kernel
  · decide +kernel
  · decide
  · rintro d hd
    obtain rfl := Option.some.inj hd
    exact ⟨rfl, List.cons_ne_nil _ _, by decide⟩

/-- A directory without entries, and one of `FST_DEFAULT` with a file. -/
theorem not_lists :
    ¬Lists .sdFatFs (fun _ => some []) (ascii "/a/?list") sampleBuf (sampleAnswer .sdFatFs []) ∧
      ¬Lists .default (fun _ => some [sampleFile]) (ascii "/a/?list") sampleBuf
        (sampleAnswer .default [sampleFile]) := by
  constructor
  · rintro ⟨-, -, calls, v, hcalls, -⟩
    have hnone := @listCalls_empty .sdFatFs (fun _ => some []) sampleBuf rfl
    cases hnone.symm.trans hcalls
  · rintro ⟨hpath, -, calls, v, hcalls, hjson, hsays, -⟩
    rw [← hpath] at hsays
    obtain ⟨calls', hcalls', htext⟩ :=
      @listCalls_cons .default (fun _ => some [sampleFile]) sampleBuf sampleFile [] rfl
    obtain rfl := Option.some.inj (hcalls.symm.trans hcalls')
    rw [htext] at hjson
    obtain ⟨-, htype, -⟩ := (says_found (List.cons_ne_nil sampleFile []) _).mp ⟨v, hjson, hsays⟩
    cases htype

end ModLocalFileSystem

end MiMic.Httpd
