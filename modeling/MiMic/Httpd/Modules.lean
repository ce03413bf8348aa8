import MiMic.Httpd.DeviceDescription

/-!
# The modules that answer

`NyLPC_cModRomFiles`, `NyLPC_cModMiMicSetting` and `NyLPC_cModUPnPDevice` answer a request. What
the header parser makes of the request comes in as its outcome, with what the handlers of the
module took from the URL.
-/
namespace MiMic.Httpd

open Http

/-- The request asks for a close, or is not of HTTP/1.1. -/
def asksClose (h : BasicHeader) : Prop := h.connection = .close ∨ h.version ≠ some .v11

instance (h : BasicHeader) : Decidable (asksClose h) := inferInstanceAs (Decidable (_ ∨ _))

namespace Responder

def setReqStatusParsed (c : Responder) : Responder :=
  { c with connection := c.connection.setReqStatusParsed }

/-- `NyLPC_TcHttpdConnection_CONNECTION_MODE_CLOSE` for a request that asks for it. -/
def followHeader (c : Responder) (h : BasicHeader) : Responder :=
  if asksClose h then c.setConnectionMode .close else c

/-- Calls up to the first that fails. -/
def sendUntil (c : Responder) : List BodyCall → Option Responder
  | [] => some c
  | call :: calls =>
      (c.sendResponseBody call).bind fun r => if r.2 then r.1.sendUntil calls else some r.1

end Responder

/-- The header of a request must be sent an interim response. -/
def asksContinue (h : BasicHeader) : Prop := h.version = some .v11 ∧ h.method = some .post

instance (h : BasicHeader) : Decidable (asksContinue h) := inferInstanceAs (Decidable (_ ∧ _))

/-- `NyLPC_cModUrl_execute2`; an error comes with the reason that the URL handler left. -/
def ModUrl.execute2 (c : Responder) (parsed : Except UInt16 BasicHeader) :
    Option (Responder × Bool) :=
  let c := c.setReqStatusParsed
  match parsed with
  | .error reason => (c.sendErrorResponse reason).map (·, false)
  | .ok h =>
      let c := if asksContinue h then c.send100Continue.1 else c
      some (c.followHeader h, true)

/-- `NyLPC_TRomFileData`: a type that can stand in a header, and data of at least `size` bytes. -/
structure RomFileData where
  name : List UInt8
  size : UInt32
  contentType : List UInt8
  data : List UInt8
  type_plain : ∀ c ∈ contentType, c ≠ 0 ∧ c ≠ chCr ∧ c ≠ chLf
  size_le : size.toNat ≤ data.length
  fits : data.length < 2 ^ 31

namespace RomFileData

/-- Without a size the data is a C string. -/
def content (f : RomFileData) : List UInt8 :=
  if f.size > 0 then f.data.take f.size.toNat else cString f.data

theorem content_fits (f : RomFileData) : f.content.length < 2 ^ 31 := by
  have hfits := f.fits
  unfold content
  split
  · rw [List.length_take]
    omega
  · have := (List.takeWhile_prefix (p := (· != 0)) (l := f.data)).length_le
    exact lt_of_le_of_lt this hfits

end RomFileData

/-- `NyLPC_cModRomFiles_execute`; the last of the files with a name is the one that is found. -/
def ModRomFiles.execute (c : Responder) (files : List RomFileData)
    (parsed : Except UInt16 (BasicHeader × List UInt8)) : Option (Responder × Bool) :=
  match parsed with
  | .error reason => ModUrl.execute2 c (.error reason)
  | .ok (h, url) =>
      (ModUrl.execute2 c (.ok h)).bind fun r =>
        if r.1.method ≠ .get ∧ r.1.method ≠ .head then (r.1.sendErrorResponse 405).map (·, false)
        else if url.length = 0 then (r.1.sendErrorResponse 403).map (·, false)
        else
          match files.reverse.find? fun f => f.name = url with
          | some f => (r.1.followHeader h).sendFixedContentBatch f.contentType f.content f.content_fits
          | none => (r.1.sendErrorResponse 404).map (·, false)

/-- The `c` of a query with what `setup_proc` looks at: the number of parameters, the length of
the host name, the port, and whether the flash was written. -/
inductive SettingQuery
  | get
  | update (paramLen hostLen : Nat) (httpPort : UInt16) (updated : Bool)
  | unknown

/-- `SIZE_OF_SETUP_PARAM`. -/
def sizeOfSetupParam : Nat := 8

/-- The three parts of the answer to `get`. -/
structure SettingTexts where
  application : BodyCall
  cfg : BodyCall
  cur : BodyCall

def resultFormat : List UInt8 :=
  ascii "\x7b\"application\":\"ModMiMicSetting/1.4\",\"result\":" ++ (ascii "%u" ++ ascii "\x7d")

theorem formatText_result (w : UInt32) : (formatText resultFormat [.word w]).isSome := by
  have hconv : ascii "%u" = [0x25, 0x75] := rfl
  rw [formatText, resultFormat, textLoop_lit (by decide), hconv]
  show (Option.map _ (textLoop .text (0x25 :: 0x75 :: ascii "\x7d") _)).isSome = true
  rw [textLoop_percent, textLoop_u, textLoop_all (by decide)]
  rfl

/-- The result of an update that was written. -/
def resultBody : BodyCall := .format resultFormat [.word 0] (formatText_result 0)

namespace ModMiMicSetting

/-- `setup_proc`. -/
def setupProc (c : Responder) (texts : SettingTexts) : SettingQuery → Option Responder
  | .get =>
      c.sendJsonHeader.bind fun r =>
        if !r.2 then some r.1
        else if r.1.method = .get then r.1.sendUntil [texts.application, texts.cfg, texts.cur]
        else some r.1
  | .update paramLen hostLen httpPort updated =>
      if paramLen ≠ sizeOfSetupParam ∨ hostLen < 1 then c.sendErrorResponse 500
      else if httpPort = 0 then c.sendErrorResponse 500
      else if !updated then c.sendErrorResponse 500
      else
        c.sendJsonHeader.bind fun r =>
          if !r.2 then some r.1
          else if r.1.method = .get then (r.1.sendResponseBody resultBody).map Prod.fst
          else some r.1
  | .unknown => c.sendErrorResponse 400

/-- `NyLPC_cModMiMicSetting_execute`; without a query the content is not `setup`. -/
def execute (c : Responder) (texts : SettingTexts)
    (parsed : Option (BasicHeader × Option SettingQuery)) : Option (Responder × Bool) :=
  let c := c.setReqStatusParsed
  match parsed with
  | none => (c.sendErrorResponse 500).map (·, false)
  | some (h, query) =>
      if c.method ≠ .get ∧ c.method ≠ .head then (c.sendErrorResponse 405).map (·, false)
      else
        match query with
        | some query => (setupProc (c.followHeader h) texts query).map (·, true)
        | none => ((c.followHeader h).sendErrorResponse 500).map (·, false)

end ModMiMicSetting

/-- `NyLPC_cModUPnPDevice_execute`; `deviceXml` is whether the content is the description. -/
def ModUPnPDevice.execute (c : Responder) (root : DevDescDevice)
    (parsed : Option (BasicHeader × Bool)) : Option (Responder × Bool) :=
  let c := c.setReqStatusParsed
  match parsed with
  | none => (c.sendErrorResponse 500).map (·, false)
  | some (h, deviceXml) =>
      if c.method ≠ .get ∧ c.method ≠ .head then (c.sendErrorResponse 405).map (·, false)
      else if deviceXml then
        ((c.followHeader h).sendResponseHeader 200 (ascii "text/xml") none).bind fun r =>
          ((writeDeviceDescription root).bind r.1.sendFormats).map (·, true)
      else ((c.followHeader h).sendErrorResponse 500).map (·, false)

/-- A request, by who answers it. -/
inductive Request
  /-- The prefix parser does not take it. -/
  | malformed
  /-- No module takes it. -/
  | unhandled
  | romFiles (files : List RomFileData) (parsed : Except UInt16 (BasicHeader × List UInt8))
  | setting (texts : SettingTexts) (parsed : Option (BasicHeader × Option SettingQuery))
  | upnp (root : DevDescDevice) (parsed : Option (BasicHeader × Bool))

/-- The answer and `closeResponse`; a malformed request is answered by `prefetch` itself. -/
def Request.serve (c : Responder) : Request → Option Responder
  | .malformed => some (c.sendHeaderOnly 400)
  | .unhandled => c.closeResponse.map Prod.fst
  | .romFiles files parsed =>
      (ModRomFiles.execute c files parsed).bind fun r => r.1.closeResponse.map Prod.fst
  | .setting texts parsed =>
      (ModMiMicSetting.execute c texts parsed).bind fun r => r.1.closeResponse.map Prod.fst
  | .upnp root parsed =>
      (ModUPnPDevice.execute c root parsed).bind fun r => r.1.closeResponse.map Prod.fst

end MiMic.Httpd
