import MiMic.Core.FormatWriter
import MiMic.Json.Getters

/-!
# The RPC handlers

The handlers of the mbed classes take parameters from the request, find or make an object, and
answer. They are listed in the tables of the classes; `Action` says what a handler does.
-/
namespace MiMic.Rpc

open MiMic.Json

def textBytes (s : String) : List UInt8 := s.toList.map fun c => UInt8.ofNat c.toNat

inductive RpcClass
  | analogIn | analogOut | busIn | busInOut | busOut | digitalIn | digitalOut | i2c | i2cSlave
  | portIn | portOut | pwmOut | serial | spi | spiSlave
deriving DecidableEq, Repr

/-- The getters of `RpcHandlerBase`, for the parameter of that index. -/
inductive Getter
  | pin (i : Nat)
  | int (i : Nat)
  | uint (i : Nat)
  | byte (i : Nat)
  | byteArray (i : Nat)
  | string (i : Nat)
deriving DecidableEq, Repr

def Getter.ok (r : RpcResult) : Getter → Bool
  | .pin i | .uint i => (r.getUInt32 i).isSome
  | .int i => (r.getInt32 i).isSome
  | .byte i => (r.getByte i).isSome
  | .byteArray i => (r.getByteArray i).isSome
  | .string i => (r.getStr i).isSome

/-- The getters are called one behind the other. -/
def paramsOk (r : RpcResult) (gs : List Getter) : Bool := gs.all (Getter.ok r)

/-- What a method answers: its own value, the length of a parameter, a string, or as many bytes
as a parameter says. With `lookup` the object is looked up and then left alone. -/
inductive ResultKind
  | lookup
  | void
  | int
  | length (i : Nat)
  | string
  | bytes (i : Nat)
  | intBytes (i : Nat)
deriving DecidableEq, Repr

inductive Action
  | new (cls : RpcClass) (gs : List Getter)
  | method (cls : RpcClass) (gs : List Getter) (result : ResultKind)
  | disposeObject
  | getInfo
deriving DecidableEq, Repr

/-- `NyLPC_TJsonRpcMethodDef` with its handler. -/
structure MethodEntry where
  name : List UInt8
  paramPatt : List UInt8
  handler : Action

def entry (name patt : String) (handler : Action) : MethodEntry :=
  ⟨textBytes name, textBytes patt, handler⟩

/-- `getParamsAsPin`. -/
def pins (n : Nat) : List Getter := (List.range n).map .pin

def patt17 : String := "uuuuuuuuuuuuuuuuu"

def RpcClass.functions : RpcClass → List MethodEntry
  | .analogIn =>
    [entry "_new1" "u" (.new .analogIn (pins 1)),
      entry "read_u16" "d" (.method .analogIn [] .int),
      entry "read_fx" "d" (.method .analogIn [] .int)]
  | .analogOut =>
    [entry "_new1" "u" (.new .analogOut (pins 1)),
      entry "read_fx" "d" (.method .analogOut [] .int),
      entry "write_fx" "dd" (.method .analogOut [.int 1] .void),
      entry "write_u16" "du" (.method .analogOut [.uint 1] .void)]
  | .busIn =>
    [entry "_new1" patt17 (.new .busIn (pins 16)),
      entry "read" "d" (.method .busIn [] .int),
      entry "mode" "dd" (.method .busIn [.int 1] .void)]
  | .busInOut =>
    [entry "_new1" patt17 (.new .busInOut (pins 16)),
      entry "read" "d" (.method .busInOut [] .int),
      entry "write" "dd" (.method .busInOut [.int 1] .void),
      entry "output" "d" (.method .busInOut [] .void),
      entry "input" "d" (.method .busInOut [] .void),
      entry "mode" "dd" (.method .busInOut [.int 1] .void)]
  | .busOut =>
    [entry "_new1" patt17 (.new .busOut (pins 16)),
      entry "read" "d" (.method .busOut [] .int),
      entry "write" "dd" (.method .busOut [.int 1] .void)]
  | .digitalIn =>
    [entry "_new1" "u" (.new .digitalIn (pins 1)),
      entry "read" "d" (.method .digitalIn [] .int),
      entry "mode" "dd" (.method .digitalIn [.int 1] .void)]
  | .digitalOut =>
    [entry "_new1" "u" (.new .digitalOut (pins 1)),
      entry "_new2" "ud" (.new .digitalOut [.pin 0, .int 1]),
      entry "write" "dd" (.method .digitalOut [.int 1] .void),
      entry "read" "d" (.method .digitalOut [] .int)]
  | .i2c =>
    [entry "_new1" "uu" (.new .i2c (pins 2)),
      entry "frequency" "dd" (.method .i2c [.int 1] .void),
      entry "read1" "ddbb" (.method .i2c [.int 1, .byte 2, .byte 3] (.intBytes 2)),
      entry "read2" "dd" (.method .i2c [.int 1] .int),
      entry "write1" "ddBb" (.method .i2c [.int 1, .byteArray 2, .byte 3] .int),
      entry "write2" "dd" (.method .i2c [.int 1] .int),
      entry "start" "d" (.method .i2c [] .void),
      entry "stop" "d" (.method .i2c [] .void)]
  | .i2cSlave =>
    [entry "_new1" "uu" (.new .i2cSlave (pins 2)),
      entry "frequency" "dd" (.method .i2cSlave [.int 1] .void),
      entry "receive" "d" (.method .i2cSlave [] .int),
      entry "read1" "db" (.method .i2cSlave [.byte 1] (.intBytes 1)),
      entry "read2" "d" (.method .i2cSlave [] .int),
      entry "write1" "dB" (.method .i2cSlave [.byteArray 1] .int),
      entry "write2" "dd" (.method .i2cSlave [.int 1] .int),
      entry "address" "dd" (.method .i2cSlave [.int 1] .void),
      entry "stop" "d" (.method .i2cSlave [] .void)]
  | .portIn =>
    [entry "_new1" "uu" (.new .portIn [.uint 0, .uint 1]),
      entry "read" "d" (.method .portIn [] .int)]
  | .portOut =>
    [entry "_new1" "uu" (.new .portOut [.uint 0, .uint 1]),
      entry "read" "d" (.method .portOut [] .int),
      entry "write" "du" (.method .portOut [.uint 1] .void)]
  | .pwmOut =>
    [entry "_new1" "u" (.new .pwmOut (pins 1)),
      entry "write_fx" "dd" (.method .pwmOut [.int 1] .void),
      entry "read_fx" "d" (.method .pwmOut [] .int),
      entry "period_fx" "dd" (.method .pwmOut [.int 1] .void),
      entry "period_ms" "dd" (.method .pwmOut [.int 1] .void),
      entry "period_us" "dd" (.method .pwmOut [.int 1] .void),
      entry "pulsewidth_fx" "dd" (.method .pwmOut [.int 1] .void),
      entry "pulsewidth_ms" "dd" (.method .pwmOut [.int 1] .void),
      entry "pulsewidth_us" "dd" (.method .pwmOut [.int 1] .void)]
  | .serial =>
    [entry "_new1" "uu" (.new .serial (pins 2)),
      entry "format" "dddd" (.method .serial [.int 1, .int 2, .int 3] .void),
      entry "readable" "d" (.method .serial [] .int),
      entry "writeable" "d" (.method .serial [] .int),
      entry "send_break" "d" (.method .serial [] .lookup),
      entry "putc" "dd" (.method .serial [.int 1] .int),
      entry "puts" "ds" (.method .serial [.string 1] .int),
      entry "getc" "d" (.method .serial [] .int),
      entry "gets" "db" (.method .serial [.byte 1] .string),
      entry "baud" "dd" (.method .serial [.int 1] .void),
      entry "gets_2" "db" (.method .serial [.byte 1] (.bytes 1)),
      entry "puts_2" "dB" (.method .serial [.byteArray 1] (.length 1))]
  | .spi =>
    [entry "_new1" "uuuu" (.new .spi (pins 4)),
      entry "format" "ddd" (.method .spi [.int 1, .int 2] .void),
      entry "frequency" "dd" (.method .spi [.int 1] .void),
      entry "write" "dd" (.method .spi [.int 1] .int)]
  | .spiSlave =>
    [entry "_new1" "uuuu" (.new .spiSlave (pins 4)),
      entry "format" "ddd" (.method .spiSlave [.int 1, .int 2] .void),
      entry "frequency" "dd" (.method .spiSlave [.int 1] .void),
      entry "read" "d" (.method .spiSlave [] .int),
      entry "receive" "d" (.method .spiSlave [] .int),
      entry "reply" "dd" (.method .spiSlave [.int 1] .void)]

/-- The table of the class `Mcu`, which has no objects. -/
def mcuFunctions : List MethodEntry :=
  [entry "getInfo" "" .getInfo, entry "disposeObject" "d" .disposeObject]

/-- The index that a getter reads, and the type that it asks for. -/
def Getter.reads : Getter → Nat × UInt8
  | .pin i | .uint i => (i, 0x75)
  | .int i => (i, 0x64)
  | .byte i => (i, 0x62)
  | .byteArray i => (i, 0x42)
  | .string i => (i, 0x73)

/-- All that a handler reads; a method begins with the id of its object. -/
def Action.getters : Action → List Getter
  | .new _ gs => gs
  | .method _ gs _ => .int 0 :: gs
  | .disposeObject => [.int 0]
  | .getInfo => []

def MethodEntry.Matches (e : MethodEntry) : Prop :=
  ∀ g ∈ e.handler.getters, e.paramPatt[g.reads.1]? = some g.reads.2

instance (e : MethodEntry) : Decidable e.Matches := by
  unfold MethodEntry.Matches
  infer_instance

/-- Every handler asks for the types of its own signature. -/
theorem functions_match (cls : RpcClass) : ∀ e ∈ cls.functions, e.Matches := by
  cases cls <;> decide +kernel

theorem mcuFunctions_match : ∀ e ∈ mcuFunctions, e.Matches := by decide +kernel

/-- The handlers of a class make and use objects of that class. -/
theorem functions_class (cls : RpcClass) : ∀ e ∈ cls.functions,
    (∃ gs, e.handler = .new cls gs) ∨ ∃ gs result, e.handler = .method cls gs result := by
  cases cls <;> simp [RpcClass.functions, entry]

end MiMic.Rpc
