import MiMic.Http.Delivery
import MiMic.Httpd.Modules
import MiMic.Httpd.ResponseGrammar

/-!
# What the response functions send

Over a stream that takes what is written each function succeeds and adds its text: lines to the
head, data to the body, and the end of the body when the response is closed.
-/
namespace MiMic.Http

open HttpStream (Pending)

section

variable {sent data : List UInt8} {k : Nat}

theorem ptrStream_write {st : HttpStream} (src : List UInt8)
    (h : Pending .none sent data (src.length + k) st) :
    ∃ st', HttpStream.ptrStream.write st src = (true, st') ∧ Pending .none sent (data ++ src) k st' := by
  obtain ⟨st', hw, hp⟩ := h.writeFunc src
  refine ⟨st', ?_, hp⟩
  simp only [HttpStream.ptrStream, hw]

namespace HeaderWriter

variable {w : HeaderWriter HttpStream}

theorem writePieces_delivers {pieces : List (List UInt8)}
    (h : Pending .none sent data (pieces.flatten.length + k) w.refStream) :
    ∃ st', w.writePieces HttpStream.ptrStream pieces = (true, { w with refStream := st' }) ∧
      Pending .none sent (data ++ pieces.flatten) k st' := by
  induction pieces generalizing w data with
  | nil => exact ⟨w.refStream, rfl, by simpa using h⟩
  | cons p pieces ih =>
    rw [List.flatten_cons, List.length_append, Nat.add_assoc] at h
    obtain ⟨st, hw, hp⟩ := ptrStream_write p h
    have hrest : Pending .none sent (data ++ p) (pieces.flatten.length + k)
        ({ w with refStream := st } : HeaderWriter HttpStream).refStream := hp
    obtain ⟨st', hws, hp'⟩ := ih hrest
    refine ⟨st', ?_, ?_⟩
    · rw [writePieces, hw]
      exact hws
    · rw [List.flatten_cons, ← List.append_assoc]
      exact hp'

theorem writeResponseHeader_delivers (status : UInt16) (hw : w.isError = false)
    (h : Pending .none sent data (((StartLine.response status).text ++ w.optionLines).length + k)
      w.refStream) :
    ∃ st', w.writeResponseHeader HttpStream.ptrStream status = (true, { w with refStream := st' }) ∧
      Pending .none sent (data ++ ((StartLine.response status).text ++ w.optionLines)) k st' := by
  rw [← flatten_responsePieces] at h ⊢
  rw [writeResponseHeader, if_neg (by simp [hw])]
  exact writePieces_delivers h

theorem writeMessage_delivers {name field : List UInt8} (hw : w.isError = false)
    (hname : IsText name) (hfield : IsText field)
    (h : Pending .none sent data ((fieldLine name field).length + k) w.refStream) :
    ∃ st', w.writeMessage HttpStream.ptrStream name field = (true, { w with refStream := st' }) ∧
      Pending .none sent (data ++ fieldLine name field) k st' := by
  rw [← flatten_messagePieces hname hfield] at h ⊢
  rw [writeMessage, if_neg (by simp [hw])]
  exact writePieces_delivers h

theorem writeRawMessage_delivers {header : List UInt8} (hw : w.isError = false)
    (hheader : IsText header) (h : Pending .none sent data (header.length + k) w.refStream) :
    ∃ st', w.writeRawMessage HttpStream.ptrStream header = (true, { w with refStream := st' }) ∧
      Pending .none sent (data ++ header) k st' := by
  have hflat : [cString header].flatten = header := by
    rw [List.flatten_singleton, cString_of_ne_zero hheader]
  have hp : Pending .none sent data ([cString header].flatten.length + k) w.refStream := by
    rw [hflat]
    exact h
  obtain ⟨st, hpieces, hst⟩ := writePieces_delivers hp
  rw [hflat] at hst
  rw [writeRawMessage, if_neg (by simp [hw])]
  exact ⟨st, hpieces, hst⟩

/-- The empty line ends the header, and the stream is settled. -/
theorem close_delivers (hw : w.isError = false) (h : Pending .none sent data (2 + k) w.refStream) :
    ∃ sizes, (w.close HttpStream.ptrStream).2 =
        { w with refStream := .settled .none sizes (sent ++ (data ++ crlf)) } ∧ Supply k sizes := by
  have hline : ascii "\r\n" = crlf := rfl
  obtain ⟨st, hwrite, hp⟩ := ptrStream_write crlf h
  obtain ⟨sizes, out, hflush, hout, hsup⟩ := hp.flush
  obtain rfl : out = data ++ crlf := hout
  refine ⟨sizes, ?_, hsup⟩
  rw [close, if_neg (by simp [hw]), hline, hwrite]
  simp only [if_true, HttpStream.ptrStream, hflush]

end HeaderWriter

end

end MiMic.Http

namespace MiMic.Httpd

open Http
open HttpStream (Pending)

namespace Responder

/-- The header that `sendResponseHeader2` sends. -/
def headText (isClose : Bool) (code : UInt16) (contentType : List UInt8) (len : Option UInt32)
    (additional : Option (List UInt8)) : List UInt8 :=
  headerText (⟨len.isNone, len.getD 0, isClose, false, ()⟩ : HeaderWriter Unit) (.response code)
    [(ascii "Content-type", contentType)] ++ (additional.getD [] ++ crlf)

/-- The encoding that the body writer sets. -/
def encodingOf (len : Option UInt32) : TransferEncoding := if len.isNone then .chunked else .none

/-- The connection is about to answer; `data` stands behind what was `sent`. -/
structure Ready (c : Responder) (sent data : List UInt8) (k : Nat) : Prop where
  status : c.connection.resStatus = .head
  pending : Pending .none sent data k c.stream

/-- The header was sent, and `data` of the body. -/
structure InBody (c : Responder) (we : TransferEncoding) (sent data : List UInt8) (k : Nat) :
    Prop where
  status : c.connection.resStatus = .body
  chunked : c.isChunked = decide (we = .chunked)
  noError : c.isError = false
  pending : Pending we sent data k c.stream

variable {c : Responder} {sent data : List UInt8} {k : Nat}

theorem isText_contentType : IsText (ascii "Content-type") := by
  unfold IsText
  decide

theorem writeLines_delivers {w : HeaderWriter HttpStream} {code : UInt16}
    {contentType : List UInt8} {additional : Option (List UInt8)} (hw : w.isError = false)
    (htype : IsText contentType) (hadd : ∀ header, additional = some header → IsText header)
    (h : Pending .none sent data ((headerText w (.response code)
      [(ascii "Content-type", contentType)] ++ additional.getD []).length + k) w.refStream) :
    ∃ st', writeLines w code contentType additional = (true, { w with refStream := st' }) ∧
      Pending .none sent (data ++ (headerText w (.response code)
        [(ascii "Content-type", contentType)] ++ additional.getD [])) k st' := by
  have hlines : headerText w (.response code) [(ascii "Content-type", contentType)] =
      ((StartLine.response code).text ++ w.optionLines) ++
        fieldLine (ascii "Content-type") contentType := by
    rw [headerText, List.flatMap_singleton]
  have hname := isText_contentType
  rw [hlines] at h ⊢
  generalize heq : ascii "Content-type" = name at *
  have hp0 : Pending .none sent data (((StartLine.response code).text ++ w.optionLines).length +
      ((fieldLine name contentType).length + ((additional.getD []).length + k))) w.refStream := by
    refine h.mono ?_
    simp only [List.length_append]
    omega
  obtain ⟨st1, hstart, hp1⟩ := HeaderWriter.writeResponseHeader_delivers code hw hp0
  have hw1 : ({ w with refStream := st1 } : HeaderWriter HttpStream).isError = false := hw
  obtain ⟨st2, hmsg, hp2⟩ := HeaderWriter.writeMessage_delivers hw1 hname htype hp1
  cases additional with
  | none =>
    refine ⟨st2, ?_, ?_⟩
    · simp only [writeLines, heq, hstart, hmsg]
      rfl
    · simpa using hp2
  | some header =>
    have hw2 : ({ w with refStream := st2 } : HeaderWriter HttpStream).isError = false := hw
    obtain ⟨st3, hraw, hp3⟩ := HeaderWriter.writeRawMessage_delivers hw2 (hadd header rfl) hp2
    refine ⟨st3, ?_, ?_⟩
    · simp only [writeLines, heq, hstart, hmsg]
      exact hraw
    · simpa using hp3

theorem setWriteEncoding_self {st : HttpStream} (h : st.weType = .none) :
    HttpStream.ptrStream.setWriteEncoding st .none = st := by
  simp [HttpStream.ptrStream, HttpStream.setWriteEncoding, h]

theorem headWriter_eq (len : Option UInt32) (h : c.stream.weType = .none) :
    c.headWriter len =
      ⟨len.isNone, len.getD 0, decide (c.connection.connectionMessageMode ≠ .keep), false, c.stream⟩ := by
  have hset := setWriteEncoding_self h
  cases len with
  | none => simp [headWriter, HeaderWriter.ofStream, HeaderWriter.setChunked,
      HeaderWriter.setConnectionClose, hset]
  | some n => simp [headWriter, HeaderWriter.ofStream, HeaderWriter.setContentLength,
      HeaderWriter.setConnectionClose, hset]

theorem Ready.send100Continue (h : c.Ready sent data (25 + k)) :
    ∃ c', c.send100Continue = (c', true) ∧ c'.Ready sent (data ++ continueText) k ∧
      c'.method = c.method ∧ c'.connection = c.connection := by
  have hlen : continueText.length = 25 := rfl
  obtain ⟨st, hw, hp⟩ := ptrStream_write continueText h.pending
  have hconn : (c.connection.send100Continue true).1 = c.connection := by
    rw [HttpdConnection.send100Continue, if_neg (not_not.mpr h.status), if_pos rfl]
  refine ⟨{ c with stream := st }, ?_, ⟨h.status, hp⟩, rfl, rfl⟩
  rw [Responder.send100Continue, if_neg (not_not.mpr h.status), hw]
  simp only [hconn]

theorem bodyWriter_settled (sizes : List UInt16) (sent : List UInt8) (len : Option UInt32) :
    bodyWriter (.settled .none sizes sent) len =
      some ⟨.settled (encodingOf len) sizes sent, len.isNone, false⟩ := by
  cases len with
  | none => rfl
  | some n => rfl

/-- Whether the header says that the connection is closed. -/
def closes (c : Responder) : Bool := c.connection.connectionMessageMode ≠ .keep

theorem Ready.sendResponseHeader2 {code : UInt16} {contentType : List UInt8} {len : Option UInt32}
    {additional : Option (List UInt8)} (htype : IsText contentType)
    (hadd : ∀ header, additional = some header → IsText header)
    (h : c.Ready sent data ((headText c.closes code contentType len additional).length + k)) :
    ∃ c', c.sendResponseHeader2 code contentType len additional = some (c', true) ∧
      c'.InBody (encodingOf len)
        (sent ++ (data ++ headText c.closes code contentType len additional)) [] k ∧
      c'.method = c.method := by
  have hstream := h.pending.weType
  have hhead := headWriter_eq len hstream
  have htext : headerText (c.headWriter len) (.response code) [(ascii "Content-type", contentType)] ++
      additional.getD [] ++ crlf = headText c.closes code contentType len additional := by
    rw [hhead, headText, List.append_assoc]
    rfl
  have hp0 : Pending .none sent data ((headerText (c.headWriter len) (.response code)
      [(ascii "Content-type", contentType)] ++ additional.getD []).length + (2 + k))
      (c.headWriter len).refStream := by
    rw [hhead]
    refine h.pending.mono ?_
    have hcrlf : crlf.length = 2 := rfl
    rw [← htext, hhead]
    simp only [List.length_append]
    omega
  have hw : (c.headWriter len).isError = false := by rw [hhead]
  obtain ⟨st, hlines, hp⟩ := writeLines_delivers hw htype hadd hp0
  have hw' : ({ c.headWriter len with refStream := st } : HeaderWriter HttpStream).isError = false := hw
  obtain ⟨sizes, hclose, hsup⟩ := HeaderWriter.close_delivers hw' hp
  rw [List.append_assoc, htext] at hclose
  refine ⟨⟨(c.connection.sendResponseHeader true).1, c.method, _, len.isNone, false⟩, ?_,
    ⟨?_, ?_, rfl, HttpStream.pending_settled _ _ hsup⟩, rfl⟩
  · rw [Responder.sendResponseHeader2, if_neg (not_not.mpr h.status)]
    simp only [hlines, Bool.not_true, Bool.false_eq_true, if_false, hclose, bodyWriter_settled,
      Option.map_some]
    rfl
  · show (c.connection.sendResponseHeader true).1.resStatus = .body
    rw [HttpdConnection.sendResponseHeader, if_neg (not_not.mpr h.status), if_pos rfl]
  · cases len <;> rfl

variable {we : TransferEncoding}

theorem InBody.sendResponseBody (call : BodyCall)
    (h : c.InBody we sent data (call.bytes.length + k)) :
    ∃ c', c.sendResponseBody call = some (c', true) ∧ c'.InBody we sent (data ++ call.bytes) k ∧
      c'.method = c.method := by
  obtain ⟨st, hw, hp⟩ := h.pending.writeFunc call.bytes
  have hconn : (c.connection.sendResponseBody true).1 = c.connection := by
    rw [HttpdConnection.sendResponseBody, if_neg (not_not.mpr h.status), if_pos rfl]
  refine ⟨{ c with stream := st }, ?_, ⟨h.status, h.chunked, h.noError, hp⟩, rfl⟩
  rw [Responder.sendResponseBody, if_neg (not_not.mpr h.status), call_run, BodyWriter.written,
    if_neg (by simp [h.noError])]
  simp [hw, hconn]

/-- Where no call fails, the two ways of sending a body leave the same connection: nothing is left
out by the one that stops. -/
theorem InBody.sends {calls : List BodyCall}
    (h : c.InBody we sent data ((calls.flatMap BodyCall.bytes).length + k)) :
    ∃ c', (c.sendAll calls = some c' ∧ c.sendUntil calls = some c') ∧
      c'.InBody we sent (data ++ calls.flatMap BodyCall.bytes) k ∧ c'.method = c.method := by
  induction calls generalizing c data with
  | nil => exact ⟨c, ⟨rfl, rfl⟩, by simpa using h, rfl⟩
  | cons call calls ih =>
    rw [List.flatMap_cons, List.length_append, Nat.add_assoc] at h
    obtain ⟨c1, hcall, h1, hm1⟩ := h.sendResponseBody call
    obtain ⟨c2, ⟨hall, huntil⟩, h2, hm2⟩ := ih h1
    refine ⟨c2, ⟨?_, ?_⟩, ?_, hm2.trans hm1⟩
    · rw [Responder.sendAll, hcall]
      exact hall
    · rw [Responder.sendUntil, hcall]
      exact huntil
    · rw [List.flatMap_cons, ← List.append_assoc]
      exact h2

/-- What stands behind the head when the response is closed. -/
def bodyText (we : TransferEncoding) (data out : List UInt8) : Prop :=
  match we with
  | .none => out = data
  | .chunked => Chunked out data

theorem InBody.closeResponse (h : c.InBody we sent data (5 + k)) :
    ∃ c' keep sizes out, c.closeResponse = some (c', keep) ∧
      c'.stream = .settled .none sizes (sent ++ out) ∧ Supply k sizes ∧ bodyText we data out := by
  obtain ⟨sizes, out, hflush, hout, hsup⟩ := h.pending.flush
  cases we with
  | none =>
    have hclose : BodyWriter.close ⟨c.stream, c.isChunked, c.isError⟩ =
        some (⟨.settled .none sizes (sent ++ out), c.isChunked, c.isError⟩, true) := by
      have hch : c.isChunked = false := h.chunked
      simp [BodyWriter.close, h.noError, hch, hflush]
    refine ⟨⟨c.connection.closeResponse.1, c.method, .settled .none sizes (sent ++ out), c.isChunked,
      c.isError⟩, c.connection.closeResponse.2, sizes, out, ?_, rfl, ?_, hout⟩
    · rw [Responder.closeResponse, h.status]
      simp only [hclose, Option.map_some]
    · exact ⟨hsup.room, le_trans (by omega) hsup.enough⟩
  | chunked =>
    have hwe := h.pending.weType
    have hset : c.stream.setWriteEncoding .none = some (.settled .none sizes (sent ++ out)) := by
      rw [HttpStream.setWriteEncoding, hwe, if_neg TransferEncoding.noConfusion, hflush]
      rfl
    have hp := HttpStream.pending_settled .none (sent ++ out) hsup
    obtain ⟨st, hw, hp'⟩ := HttpStream.Pending.writeFunc bodyFooter hp
    obtain ⟨sizes', out', hflush', hout', hsup'⟩ := hp'.flush
    obtain rfl : out' = bodyFooter := hout'
    have hfooter : [chZero, chCr, chLf, chCr, chLf] = bodyFooter := rfl
    have hclose : BodyWriter.close ⟨c.stream, c.isChunked, c.isError⟩ =
        some (⟨.settled .none sizes' (sent ++ out ++ bodyFooter), c.isChunked, c.isError⟩, true) := by
      have hch : c.isChunked = true := h.chunked
      simp [BodyWriter.close, h.noError, hch, hset, hfooter, hw, hflush']
    rw [List.append_assoc] at hclose
    refine ⟨⟨c.connection.closeResponse.1, c.method, .settled .none sizes' (sent ++ (out ++ bodyFooter)),
      c.isChunked, c.isError⟩, c.connection.closeResponse.2, sizes', out ++ bodyFooter, ?_, rfl, hsup',
      chunked_of_encodes hout⟩
    rw [Responder.closeResponse, h.status]
    simp only [hclose, Option.map_some]

end Responder

end MiMic.Httpd
