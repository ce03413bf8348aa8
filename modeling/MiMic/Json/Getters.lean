import MiMic.Json.RpcParser

/-!
# The parameters of a request

The getters of `NyLPC_TJsonRpcParserResult`: a parameter that is missing or of another type is
refused.
-/
namespace MiMic.Json

/-- A pointer into `param_buf`, as the offset into `area`, and the length byte before it. -/
structure BufferRef where
  ptr : Nat
  len : UInt8
deriving DecidableEq

namespace RpcResult

/-- The tests of the getters, with the offset of the parameter in `area`. -/
def paramOffset (r : RpcResult) (patt : UInt8) (i : Nat) : Option Nat :=
  if r.paramIndex i = 0xff then none
  else if r.paramType i ≠ some patt then none
  else some (4 + (r.paramIndex i).toNat)

def getUInt32 (r : RpcResult) (i : Nat) : Option UInt32 :=
  (r.paramOffset 0x75 i).map (Memory.u32 r.area)

def getInt32 (r : RpcResult) (i : Nat) : Option Int32 :=
  (r.paramOffset 0x64 i).map fun o => (Memory.u32 r.area o).toInt32

def getByte (r : RpcResult) (i : Nat) : Option UInt8 := (r.paramOffset 0x62 i).map r.area

def getStr (r : RpcResult) (i : Nat) : Option BufferRef :=
  (r.paramOffset 0x73 i).map fun o => ⟨o + 1, r.area o⟩

def getByteArray (r : RpcResult) (i : Nat) : Option BufferRef :=
  (r.paramOffset 0x42 i).map fun o => ⟨o + 1, r.area o⟩

/-- The bytes of a string or of a byte array. -/
def bytesAt (r : RpcResult) (b : BufferRef) : List UInt8 := Memory.window r.area b.ptr b.len.toNat

/-- `method.id`, as the unsigned number that answers are given. -/
def methodId (r : RpcResult) : UInt32 := Memory.u32 r.area 0

end RpcResult

end MiMic.Json
