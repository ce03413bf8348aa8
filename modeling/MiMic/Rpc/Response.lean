import MiMic.Lib.Json
import MiMic.Rpc.Objects
import MiMic.WebSocket.Writing

/-!
# Responses

`NyLPC_cModJsonRpc_putResultV` counts the text of a response and then writes it in three pieces;
`NyLPC_cModJsonRpc_putError` writes an error in one.
-/
namespace MiMic.Rpc

open Verif
open Verif.Decimal (decimal decimalInt)
open Verif.Json (Value IsJson Utf8 PlainChar)
open MiMic.Json MiMic.WebSocket

def resultHead : List UInt8 := textBytes "\x7b\"jsonrpc\":\"2.0\",\"result\":["
def resultTail : List UInt8 := textBytes "],\"id\":%d\x7d"

def errorFormat : List UInt8 :=
  textBytes "\x7b\"jsonrpc\":\"2.0\",\"error\":\x7b\"code\": %d, \"message\": \"%s\"\x7d,\"id\":%d\x7d"

/-- `_table`. -/
def errorTable : List (List UInt8 × Int32) :=
  [(textBytes "Parse error", -32700), (textBytes "Invalid Request", -32600),
    (textBytes "Method not found", -32601), (textBytes "Invalid params", -32602),
    (textBytes "Internal error", -32603), (textBytes "Server error", -32000)]

/-- `code2msg`; for another code it reads behind the table. -/
def code2msg (code : Int32) : Option (List UInt8) :=
  (errorTable.find? fun e => code == e.2).map Prod.fst

/-- Calls of `writeBulkFormat` as long as they go well, and `endBulkWrite`. -/
def bulkFormats (ws : ModWebSocket) :
    List (List UInt8 × List FormatArg) → Option (ModWebSocket × Bool)
  | [] => some (ws, ws.endBulkWrite)
  | (fmt, args) :: calls =>
      match ws.writeBulkFormat fmt args with
      | some (ws, true) => bulkFormats ws calls
      | r => r

/-- `NyLPC_cModJsonRpc_putResultV`; the answer of `startBulkWrite` is not looked at. -/
def putResultV (ws : ModWebSocket) (rs : List Recv) (id : UInt32) (fmt : List UInt8)
    (args : List FormatArg) : Option (ModWebSocket × Bool) := do
  let l₁ ← formatLength resultHead []
  let l₂ ← formatLength fmt args
  let l₃ ← formatLength resultTail [.word id]
  bulkFormats (ws.startBulkWrite (l₁ + l₂ + l₃) rs).1
    [(resultHead, []), (fmt, args), (resultTail, [.word id])]

/-- `NyLPC_cModJsonRpc_putError`. -/
def putError (ws : ModWebSocket) (rs : List Recv) (id : UInt32) (code : Int32) :
    Option (ModWebSocket × Bool) := do
  let msg ← code2msg code
  ws.writeFormat errorFormat [.word code.toUInt32, .ptr msg, .word id] rs

def Reply.put (ws : ModWebSocket) (rs : List Recv) (id : UInt32) :
    Reply → Option (ModWebSocket × Bool)
  | .result fmt args => putResultV ws rs id fmt args
  | .error code => putError ws rs id code

/-- An element of the array of a result. -/
inductive Item
  | int (w : UInt32)
  | str (s : List UInt8)
  | hex (bs : List UInt8)

inductive Answer
  | result (items : List Item)
  | error (code : Int32)

def ResultKind.items (r : RpcResult) (dev : Device) : ResultKind → List Item
  | .lookup => []
  | .void => []
  | .int => [.int dev.word]
  | .length i => [.int (((r.getByteArray i).map BufferRef.len).getD 0).toUInt32]
  | .string => [.str dev.string]
  | .bytes i => [.hex (deviceBytes dev (byteParam r i).toNat)]
  | .intBytes i => [.int dev.word, .hex (deviceBytes dev (byteParam r i).toNat)]

def envItems (dev : Device) : List Item :=
  [.str dev.env.1, .str dev.env.2.1, .str dev.env.2.2.1, .str dev.env.2.2.2, .int (0 - 1)]

/-- What is to be answered to a request. -/
def Action.answer (t : ObjectTable) (r : RpcResult) (dev : Device) : Action → Answer
  | .new _ gs =>
      match paramsOk r gs, t.objects.findIdx? Option.isNone with
      | true, some i => .result [.int (UInt32.ofNat i)]
      | _, _ => .error invalidParams
  | .method _ gs result =>
      if (r.getInt32 0).isSome ∧ paramsOk r gs then .result (result.items r dev)
      else .error invalidParams
  | .disposeObject =>
      match r.getInt32 0 with
      | some id => .result [.int (if (t.live id).isSome then 1 else 0)]
      | none => .error invalidParams
  | .getInfo => .result (envItems dev)

def Item.value : Item → Value
  | .int w => .num w.toInt32.toInt 0
  | .str s => .str s
  | .hex bs => .str (hexText bs)

/-- A response with its third member. -/
def response (id : UInt32) (name : List UInt8) (v : Value) : Value :=
  .obj [(textBytes "jsonrpc", .str (textBytes "2.0")), (name, v), (textBytes "id", .num id.toNat 0)]

def Answer.Says (id : UInt32) (payload : List UInt8) : Answer → Prop
  | .result items =>
      IsJson payload (response id (textBytes "result") (.arr (items.map Item.value)))
  | .error code => ∃ msg, IsJson payload (response id (textBytes "error")
      (.obj [(textBytes "code", .num code.toInt 0), (textBytes "message", .str msg)]))

/-- One text message is written, behind what `update` writes, and it says the answer. -/
def Answered (ws : ModWebSocket) (rs : List Recv) (id : UInt32) (reply : Reply) (a : Answer) : Prop :=
  ∃ ws' r bytes payload, reply.put ws rs id = some (ws', r) ∧
    ws'.tx = (ws.update rs).1.tx ++ bytes ∧
    WsFrame.decode bytes = some (⟨true, typeOpcode .txt, none, payload⟩, []) ∧ a.Says id payload

/-- The values that are written as what they are. -/
def Item.Ok : Item → Prop
  | .int w => w.toInt32 ≠ Int32.minValue
  | .str s => Utf8 s ∧ ∀ c ∈ s, PlainChar c
  | .hex _ => True

def Item.length : Item → Nat
  | .int w => (decimalInt w.toInt32.toInt).length
  | .str s => s.length + 2
  | .hex bs => 2 * bs.length + 2

/-- The answers that come out right: a short result of such values, an error of the table. -/
def Answer.Fits (id : UInt32) : Answer → Prop
  | .result items => (∀ it ∈ items, it.Ok) ∧
      35 + (items.map Item.length).sum + (items.length - 1) + (decimal id.toNat).length ≤ 125
  | .error code => code ∈ errorTable.map Prod.snd

/-- What is written for an element. -/
def Item.text : Item → List UInt8
  | .int w => itoa w.toInt32 10
  | .str s => chQuote :: (limited s 0x7fffffff ++ [chQuote])
  | .hex bs => chQuote :: (hexText bs ++ [chQuote])

/-- The calls of the handlers, and the answers that they stand for. -/
inductive Carries : Reply → Answer → Prop
  | void : Carries (.result [] []) (.result [])
  | int (w : UInt32) : Carries (.result (textBytes "%d") [.word w]) (.result [.int w])
  | str (s : List UInt8) : Carries (.result (textBytes "\"%s\"") [.ptr s]) (.result [.str s])
  | hex {n : UInt32} {bs : List UInt8} : n.toNat = bs.length →
      Carries (.result (textBytes "\"%.*B\"") [.word n, .ptr bs]) (.result [.hex bs])
  | intHex (w : UInt32) {n : UInt32} {bs : List UInt8} : n.toNat = bs.length →
      Carries (.result (textBytes "%d,\"%.*B\"") [.word w, .word n, .ptr bs])
        (.result [.int w, .hex bs])
  | env (s₁ s₂ s₃ s₄ : List UInt8) (w : UInt32) :
      Carries (.result (textBytes "\"%s\",\"%s\",\"%s\",\"%s\",%d")
        [.ptr s₁, .ptr s₂, .ptr s₃, .ptr s₄, .word w])
        (.result [.str s₁, .str s₂, .str s₃, .str s₄, .int w])
  | error (code : Int32) : Carries (.error code) (.error code)

def tailText (id : UInt32) : List UInt8 := textBytes "],\"id\":" ++ itoa id.toInt32 10 ++ [chRightBrace]

def errorText (id : UInt32) (code : Int32) (msg : List UInt8) : List UInt8 :=
  textBytes "\x7b\"jsonrpc\":\"2.0\",\"error\":\x7b\"code\": " ++ itoa code 10 ++
    textBytes ", \"message\": \"" ++ msg ++ textBytes "\"\x7d,\"id\":" ++ itoa id.toInt32 10 ++
    [chRightBrace]

theorem formatText_error (id : UInt32) (code : Int32) {msg : List UInt8}
    (h : limited msg 0x7fffffff = msg) :
    formatText errorFormat [.word code.toUInt32, .ptr msg, .word id] =
      some (errorText id code msg) := by
  have hfmt : errorFormat =
      textBytes "\x7b\"jsonrpc\":\"2.0\",\"error\":\x7b\"code\": " ++ (0x25 :: 0x64 ::
        (textBytes ", \"message\": \"" ++ (0x25 :: 0x73 ::
          (textBytes "\"\x7d,\"id\":" ++ (0x25 :: 0x64 :: [chRightBrace]))))) := rfl
  have hcode : code.toUInt32.toInt32 = code := rfl
  rw [formatText, hfmt, textLoop_lit (by decide), textLoop_percent, textLoop_d,
    textLoop_lit (by decide), textLoop_percent, textLoop_s, textLoop_lit (by decide),
    textLoop_percent, textLoop_d, textLoop_all (by decide), h, hcode]
  simp [errorText]

/-- The text of a response. -/
def Reply.text (id : UInt32) : Reply → Option (List UInt8)
  | .result fmt args => (formatText fmt args).map fun t => resultHead ++ t ++ tailText id
  | .error code => (code2msg code).map (errorText id code)

end MiMic.Rpc
