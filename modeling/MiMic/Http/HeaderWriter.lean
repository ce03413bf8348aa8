import MiMic.Core.FormatWriter
import MiMic.Http.BodyParser
import MiMic.Http.HeaderLines
import MiMic.NetIf.IpTypes

/-!
# The HTTP header writer

`NyLPC_cHttpHeaderWriter` writes a request or a response header to a stream, piece by piece.
What it writes is a start line, the lines of its options and the fields of its user.
-/
namespace MiMic.Http

open Verif.Decimal (decimal)

/-- `NyLPC_TiHttpPtrStream`, as far as the writers use it. -/
structure PtrStream (τ : Type) where
  write : τ → List UInt8 → Bool × τ
  flush : τ → Bool × τ
  setWriteEncoding : τ → TransferEncoding → τ

/-- What is written goes behind what was sent before. -/
structure PtrStream.Appends {τ : Type} (S : PtrStream τ) (sent : τ → List UInt8) : Prop where
  write : ∀ t bs, (S.write t bs).1 = true → sent (S.write t bs).2 = sent t ++ bs
  flush : ∀ t, sent (S.flush t).2 = sent t
  setWriteEncoding : ∀ t e, sent (S.setWriteEncoding t e) = sent t

structure HeaderWriter (τ : Type) where
  isChunked : Bool
  contentLength : UInt32
  isClose : Bool
  isError : Bool
  refStream : τ

/-- One number of an address: leading zeros are left out. -/
def byteText (v : UInt8) : List UInt8 :=
  (if 100 ≤ v then [v / 100 + chZero] else []) ++
    (if 10 ≤ v then [v % 100 / 10 + chZero] else []) ++ [v % 10 + chZero]

/-- `NyLPC_TIPv4Addr_toString`: the dot behind the last number becomes the terminator. -/
def ipv4ToString (ip : IPv4Addr) : List UInt8 :=
  (([24, 16, 8, 0] : List UInt32).flatMap fun k =>
    byteText ((ntohl ip.v >>> k) &&& 0xff).toUInt8 ++ [chDot]).dropLast

/-- `status_line_tbl`. -/
def statusLineTbl : List (UInt16 × List UInt8) :=
  [(200, ascii "OK"), (301, ascii "Moved Permanently"), (302, ascii "Moved Temporarily"),
    (400, ascii "Bad Request"), (403, ascii "Forbidden"), (404, ascii "Not Found"),
    (405, ascii "Method Not Allowed"), (500, ascii "Internal Server Error")]

/-- `getStatusMessage`. -/
def getStatusMessage (status : UInt16) : Option (List UInt8) :=
  (statusLineTbl.find? fun e => status == e.1).map Prod.snd

/-- `NyLPC_cHttpdConfig_SERVER`. -/
def httpdServer : List UInt8 := ascii "MiMicHttpd/0.39"

namespace HeaderWriter

variable {τ : Type}

/-- `NyLPC_cHttpHeaderWriter_initialize`. -/
def ofStream (S : PtrStream τ) (t : τ) (reqHeader : Option BasicHeader) : Bool × HeaderWriter τ :=
  let w : HeaderWriter τ := ⟨false, 0, true, false, S.setWriteEncoding t .none⟩
  match reqHeader with
  | none => (true, w)
  | some h =>
      if h.type ≠ .request then (false, w)
      else (true, { w with isClose := h.connection = .close ∨ h.version ≠ some .v11 })

def setChunked (w : HeaderWriter τ) : HeaderWriter τ := { w with isChunked := true }

def setContentLength (w : HeaderWriter τ) (n : UInt32) : HeaderWriter τ := { w with contentLength := n }

def setConnectionClose (w : HeaderWriter τ) (isClose : Bool) : HeaderWriter τ :=
  { w with isClose := isClose }

/-- The writes of a function up to the first that fails. -/
def writePieces (S : PtrStream τ) : HeaderWriter τ → List (List UInt8) → Bool × HeaderWriter τ
  | w, [] => (true, w)
  | w, bs :: rest =>
      let w' := { w with refStream := (S.write w.refStream bs).2 }
      if (S.write w.refStream bs).1 then writePieces S w' rest else (false, { w' with isError := false })

/-- The lines for `_is_close`, and for the framing of the body. -/
def optionPieces (w : HeaderWriter τ) : List (List UInt8) :=
  (if w.isClose then [ascii "Connection: CLOSE\r\n"] else []) ++
    if w.isChunked then [ascii "Transfer-Encoding: chunked\r\n"]
    else [ascii "Content-Length: ", uitoa w.contentLength 10, ascii "\r\n"]

def writeRequestHeader (S : PtrStream τ) (w : HeaderWriter τ) (m : HttpMethod) (host : IPv4Addr)
    (port : UInt16) (path : List UInt8) : Bool × HeaderWriter τ :=
  if w.isError then (false, w)
  else
    writePieces S w ([m.toString, ascii " ", cString path, ascii " HTTP/1.1\r\n", ascii "Host: ",
      ipv4ToString host, ascii ":", uitoa port.toUInt32 10, ascii "\r\n"] ++ w.optionPieces)

/-- An unknown status is sent as 500. -/
def statusEntry (status : UInt16) : UInt16 × List UInt8 :=
  match getStatusMessage status with
  | some m => (status, m)
  | none => (500, (getStatusMessage 500).getD [])

def writeResponseHeader (S : PtrStream τ) (w : HeaderWriter τ) (status : UInt16) :
    Bool × HeaderWriter τ :=
  if w.isError then (false, w)
  else
    writePieces S w ([ascii "HTTP/1.1 ", itoa (statusEntry status).1.toUInt32.toInt32 10, ascii " ",
      (statusEntry status).2, ascii "\r\n", ascii "Server: " ++ httpdServer ++ ascii "\r\n"] ++
        w.optionPieces)

def writeMessage (S : PtrStream τ) (w : HeaderWriter τ) (name field : List UInt8) :
    Bool × HeaderWriter τ :=
  if w.isError then (false, w)
  else writePieces S w [cString name, ascii ": ", cString field, ascii "\r\n"]

def close (S : PtrStream τ) (w : HeaderWriter τ) : Bool × HeaderWriter τ :=
  if w.isError then (false, w)
  else
    let w' := { w with refStream := (S.write w.refStream (ascii "\r\n")).2 }
    if (S.write w.refStream (ascii "\r\n")).1 then
      ((S.flush w'.refStream).1, { w' with refStream := (S.flush w'.refStream).2 })
    else (false, w')

end HeaderWriter

/-- What the user of a writer asks for. -/
inductive StartLine
  | request (m : HttpMethod) (host : IPv4Addr) (port : UInt16) (path : List UInt8)
  | response (status : UInt16)

namespace HeaderWriter

variable {τ : Type}

def writeStart (S : PtrStream τ) (w : HeaderWriter τ) : StartLine → Bool × HeaderWriter τ
  | .request m host port path => w.writeRequestHeader S m host port path
  | .response status => w.writeResponseHeader S status

def writeMessages (S : PtrStream τ) :
    HeaderWriter τ → List (List UInt8 × List UInt8) → Bool × HeaderWriter τ
  | w, [] => (true, w)
  | w, f :: fs =>
      if (w.writeMessage S f.1 f.2).1 then writeMessages S (w.writeMessage S f.1 f.2).2 fs
      else w.writeMessage S f.1 f.2

/-- The start line, the fields of the user, and the end, as long as the calls succeed. -/
def writeHeader (S : PtrStream τ) (w : HeaderWriter τ) (start : StartLine)
    (fields : List (List UInt8 × List UInt8)) : Bool × HeaderWriter τ :=
  if (w.writeStart S start).1 then
    if ((w.writeStart S start).2.writeMessages S fields).1 then
      ((w.writeStart S start).2.writeMessages S fields).2.close S
    else (w.writeStart S start).2.writeMessages S fields
  else w.writeStart S start

end HeaderWriter

/-- The text of the `Host` field. -/
def hostText (host : IPv4Addr) (port : UInt16) : List UInt8 :=
  ipv4ToString host ++ ascii ":" ++ decimal port.toNat

/-- The start line with the field that comes with it. -/
def StartLine.text : StartLine → List UInt8
  | .request m host port path => requestLine m path ++ fieldLine (ascii "Host") (hostText host port)
  | .response status =>
      statusLine (HeaderWriter.statusEntry status).1.toNat ((HeaderWriter.statusEntry status).2 ++ [chCr]) ++
        fieldLine (ascii "Server") httpdServer

def HeaderWriter.optionLines {τ : Type} (w : HeaderWriter τ) : List UInt8 :=
  (if w.isClose then fieldLine (ascii "Connection") (ascii "CLOSE") else []) ++
    if w.isChunked then fieldLine (ascii "Transfer-Encoding") (ascii "chunked")
    else fieldLine (ascii "Content-Length") (decimal w.contentLength.toNat)

/-- The header without its empty line. -/
def headerText {τ : Type} (w : HeaderWriter τ) (start : StartLine)
    (fields : List (List UInt8 × List UInt8)) : List UInt8 :=
  start.text ++ w.optionLines ++ fields.flatMap fun f => fieldLine f.1 f.2

/-- Text that a caller can pass: a C string. -/
def IsText (t : List UInt8) : Prop := ∀ c ∈ t, c ≠ 0

theorem uitoa_ten (n : UInt32) : uitoa n 10 = decimal n.toNat := by
  have hlt := n.toNat_lt
  rw [uitoa, revDigits_ten 32 n.toNat (by omega) (by decide), List.reverse_reverse]

/-- A status is no negative number. -/
theorem itoa_status (s : UInt16) : itoa s.toUInt32.toInt32 10 = decimal s.toNat := by
  have hlt := s.toNat_lt
  have hint : s.toUInt32.toInt32.toInt = (s.toNat : Int) := by
    have hnat : s.toUInt32.toBitVec.toNat = s.toNat := UInt16.toNat_toUInt32 s
    show s.toUInt32.toBitVec.toInt = _
    rw [BitVec.toInt_eq_toNat_bmod, hnat]
    exact Int.bmod_eq_of_le (by omega) (by omega)
  have hne : s.toUInt32.toInt32 ≠ Int32.minValue := by
    intro h
    rw [h] at hint
    have hmin : Int32.minValue.toInt = -2147483648 := rfl
    omega
  rw [itoa_ten hne, hint, Verif.Decimal.decimalInt, if_neg (by omega), Int.natAbs_natCast]

namespace HeaderWriter

variable {τ : Type} {S : PtrStream τ} {sent : τ → List UInt8}

/-- Pieces that have all been written stand behind one another. -/
theorem sent_writePieces (hS : S.Appends sent) {w : HeaderWriter τ} {pieces : List (List UInt8)}
    (h : (w.writePieces S pieces).1 = true) :
    sent (w.writePieces S pieces).2.refStream = sent w.refStream ++ pieces.flatten ∧
      (w.writePieces S pieces).2 =
        { w with refStream := (w.writePieces S pieces).2.refStream } := by
  induction pieces generalizing w with
  | nil => exact ⟨(List.append_nil _).symm, rfl⟩
  | cons bs rest ih =>
    simp only [writePieces] at h ⊢
    split at h
    · next hok =>
      rw [if_pos hok]
      obtain ⟨hsent, hw⟩ := ih h
      refine ⟨?_, hw⟩
      rw [hsent, List.flatten_cons, ← List.append_assoc]
      exact congrArg (· ++ rest.flatten) (hS.write _ _ hok)
    · cases h

theorem flatten_optionPieces (w : HeaderWriter τ) : w.optionPieces.flatten = w.optionLines := by
  have hclose : ascii "Connection: CLOSE\r\n" = fieldLine (ascii "Connection") (ascii "CLOSE") := rfl
  have hchunked : ascii "Transfer-Encoding: chunked\r\n" =
      fieldLine (ascii "Transfer-Encoding") (ascii "chunked") := rfl
  have hlength : ascii "Content-Length: " = ascii "Content-Length" ++ ascii ": " := rfl
  rw [optionPieces, optionLines, List.flatten_append, hclose, hchunked, hlength, uitoa_ten]
  congr 1
  · split
    · exact List.append_nil _
    · rfl
  · split
    · exact List.append_nil _
    · simp [fieldLine]

theorem flatten_responsePieces (w : HeaderWriter τ) (status : UInt16) :
    ([ascii "HTTP/1.1 ", itoa (statusEntry status).1.toUInt32.toInt32 10, ascii " ",
      (statusEntry status).2, ascii "\r\n", ascii "Server: " ++ httpdServer ++ ascii "\r\n"] ++
        w.optionPieces).flatten = (StartLine.response status).text ++ w.optionLines := by
  have hversion : ascii "HTTP/1.1 " = version11 ++ [chSpace] := rfl
  have hserver : ascii "Server: " ++ httpdServer ++ ascii "\r\n" =
      fieldLine (ascii "Server") httpdServer := rfl
  have hspace : ascii " " = [chSpace] := rfl
  have hline : ascii "\r\n" = [chCr] ++ [chLf] := rfl
  rw [List.flatten_append, flatten_optionPieces, itoa_status, hversion, hserver, hspace, hline]
  simp [StartLine.text, statusLine]

theorem flatten_messagePieces {name field : List UInt8} (hname : IsText name)
    (hfield : IsText field) :
    [cString name, ascii ": ", cString field, ascii "\r\n"].flatten = fieldLine name field := by
  rw [cString_of_ne_zero hname, cString_of_ne_zero hfield]
  simp [fieldLine]

/-- What each function writes, when it succeeds. -/
theorem sent_writeStart (hS : S.Appends sent) {w : HeaderWriter τ} {start : StartLine}
    (hpath : ∀ m host port path, start = .request m host port path → IsText path)
    (h : (w.writeStart S start).1 = true) :
    sent (w.writeStart S start).2.refStream = sent w.refStream ++ (start.text ++ w.optionLines) ∧
      (w.writeStart S start).2 = { w with refStream := (w.writeStart S start).2.refStream } := by
  cases start with
  | request m host port path =>
    have hp := hpath m host port path rfl
    simp only [writeStart, writeRequestHeader] at h ⊢
    split at h
    · cases h
    · next herr =>
      rw [if_neg herr]
      obtain ⟨hsent, hw⟩ := sent_writePieces hS h
      refine ⟨?_, hw⟩
      rw [hsent, List.flatten_append, flatten_optionPieces, cString_of_ne_zero hp, uitoa_ten]
      have hversion : ascii " HTTP/1.1\r\n" = [chSpace] ++ (version11 ++ ascii "\r\n") := rfl
      have hname : ascii "Host: " = ascii "Host" ++ ascii ": " := rfl
      have hspace : ascii " " = [chSpace] := rfl
      rw [hversion, hname, hspace]
      simp [StartLine.text, requestLine, fieldLine, hostText]
  | response status =>
    simp only [writeStart, writeResponseHeader] at h ⊢
    split at h
    · cases h
    · next herr =>
      rw [if_neg herr]
      obtain ⟨hsent, hw⟩ := sent_writePieces hS h
      exact ⟨by rw [hsent, flatten_responsePieces], hw⟩

theorem sent_writeMessage (hS : S.Appends sent) {w : HeaderWriter τ} {name field : List UInt8}
    (hname : IsText name) (hfield : IsText field) (h : (w.writeMessage S name field).1 = true) :
    sent (w.writeMessage S name field).2.refStream = sent w.refStream ++ fieldLine name field := by
  simp only [writeMessage] at h ⊢
  split at h
  · cases h
  · next herr =>
    rw [if_neg herr, (sent_writePieces hS h).1, flatten_messagePieces hname hfield]

theorem sent_writeMessages (hS : S.Appends sent) {fields : List (List UInt8 × List UInt8)}
    (htext : ∀ f ∈ fields, IsText f.1 ∧ IsText f.2) {w : HeaderWriter τ}
    (h : (w.writeMessages S fields).1 = true) :
    sent (w.writeMessages S fields).2.refStream =
      sent w.refStream ++ fields.flatMap fun f => fieldLine f.1 f.2 := by
  induction fields generalizing w with
  | nil => exact (List.append_nil _).symm
  | cons f fs ih =>
    obtain ⟨hname, hfield⟩ := htext f (List.mem_cons_self ..)
    simp only [writeMessages] at h ⊢
    split at h
    · next hok =>
      rw [if_pos hok, ih (fun g hg => htext g (List.mem_cons_of_mem _ hg)) h,
        sent_writeMessage hS hname hfield hok, List.flatMap_cons, List.append_assoc]
    · next hno => exact absurd h hno

theorem sent_close (hS : S.Appends sent) {w : HeaderWriter τ} (h : (w.close S).1 = true) :
    sent (w.close S).2.refStream = sent w.refStream ++ ascii "\r\n" := by
  simp only [close] at h ⊢
  split at h
  · cases h
  · next herr =>
    rw [if_neg herr]
    split at h
    · next hok =>
      rw [if_pos hok]
      show sent (S.flush _).2 = _
      rw [hS.flush, hS.write _ _ hok]
    · cases h

/-- A header that was written is its lines and the empty line. -/
theorem sent_writeHeader (hS : S.Appends sent) {w : HeaderWriter τ} {start : StartLine}
    {fields : List (List UInt8 × List UInt8)}
    (hpath : ∀ m host port path, start = .request m host port path → IsText path)
    (htext : ∀ f ∈ fields, IsText f.1 ∧ IsText f.2)
    (h : (w.writeHeader S start fields).1 = true) :
    sent (w.writeHeader S start fields).2.refStream =
      sent w.refStream ++ (headerText w start fields ++ ascii "\r\n") := by
  simp only [writeHeader] at h ⊢
  split at h
  · next hstart =>
    rw [if_pos hstart]
    split at h
    · next hmsgs =>
      rw [if_pos hmsgs, sent_close hS h, sent_writeMessages hS htext hmsgs,
        (sent_writeStart hS hpath hstart).1, headerText]
      simp only [List.append_assoc]
    · next hno => exact absurd h hno
  · next hno => exact absurd h hno

end HeaderWriter

end MiMic.Http
