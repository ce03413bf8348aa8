import MiMic.Core.Stdlib

/-!
# The receive buffer of a socket

The bytes are kept from the front of the fixed area on. `fits` is the invariant
that `push` and `pop` assert on entry, carried by the structure.
-/
namespace MiMic

structure FifoBuffer where
  size : UInt16
  buf : List UInt8
  fits : buf.length ≤ size.toNat

namespace FifoBuffer

def getLength (f : FifoBuffer) : UInt16 := UInt16.ofNat f.buf.length

def getSpace (f : FifoBuffer) : UInt16 := f.size - f.getLength

def clear (f : FifoBuffer) : FifoBuffer where
  size := f.size
  buf := []
  fits := Nat.zero_le _

theorem length_lt (f : FifoBuffer) : f.buf.length < 65536 :=
  Nat.lt_of_le_of_lt f.fits f.size.toNat_lt

@[simp] theorem toNat_getLength (f : FifoBuffer) : f.getLength.toNat = f.buf.length :=
  Nat.mod_eq_of_lt f.length_lt

theorem toNat_getSpace (f : FifoBuffer) : f.getSpace.toNat = f.size.toNat - f.buf.length := by
  have hle : f.getLength ≤ f.size := by
    rw [UInt16.le_iff_toNat_le, toNat_getLength]
    exact f.fits
  rw [getSpace, UInt16.toNat_sub_of_le _ _ hle, toNat_getLength]

theorem push_fits (f : FifoBuffer) (data : List UInt8) (h : data.length ≤ f.getSpace.toNat) :
    (f.buf ++ data).length ≤ f.size.toNat := by
  have := f.fits
  rw [toNat_getSpace] at h
  rw [List.length_append]
  omega

/-- `memcpy` behind the last byte; the argument check of the source is the hypothesis. -/
def push (f : FifoBuffer) (data : List UInt8) (h : data.length ≤ f.getSpace.toNat) : FifoBuffer where
  size := f.size
  buf := f.buf ++ data
  fits := f.push_fits data h

/-- `memmove` of the rest to the front. -/
def pop (f : FifoBuffer) (n : Nat) : FifoBuffer where
  size := f.size
  buf := f.buf.drop n
  fits := by
    have := f.fits
    rw [List.length_drop]
    omega

@[simp] theorem buf_clear (f : FifoBuffer) : f.clear.buf = [] := rfl
@[simp] theorem buf_push (f : FifoBuffer) (data : List UInt8) (h) :
    (f.push data h).buf = f.buf ++ data := rfl
@[simp] theorem buf_pop (f : FifoBuffer) (n : Nat) : (f.pop n).buf = f.buf.drop n := rfl

end FifoBuffer

end MiMic
