import MiMic.Rpc.Response

/-!
# What the responses say

The text of a response is given to the grammar of JSON: what an element has to be to be read as
itself, and which answers come out right.
-/
namespace MiMic.Rpc

open Verif
open Verif.Decimal (decimal decimalInt)
open Verif.Json (Value IsJson Utf8 PlainChar)
open MiMic.Json MiMic.WebSocket

/-- The values that are read back, whatever their characters stand for. -/
def Item.Valid : Item → Prop
  | .int w => w.toInt32 ≠ Int32.minValue
  | .str s => limited s 0x7fffffff = s ∧ ∀ c ∈ s, PlainChar c
  | .hex _ => True

/-- Only plain characters stand before the next quote. -/
def Follows (rest : List UInt8) : Prop := ∃ w z, rest = w ++ chQuote :: z ∧ ∀ c ∈ w, PlainChar c

theorem Follows.cons {c : UInt8} {rest : List UInt8} (h : Follows rest) (hc : PlainChar c) :
    Follows (c :: rest) := by
  obtain ⟨w, z, rfl, hw⟩ := h
  refine ⟨c :: w, z, rfl, fun d hd => ?_⟩
  rcases List.mem_cons.mp hd with rfl | hd
  · exact hc
  · exact hw d hd

theorem Follows.append {as rest : List UInt8} (h : Follows rest) (has : ∀ c ∈ as, PlainChar c) :
    Follows (as ++ rest) := by
  induction as with
  | nil => exact h
  | cons a as ih =>
    exact (ih fun c hc => has c (List.mem_cons_of_mem _ hc)).cons (has a List.mem_cons_self)

namespace Item

end Item

theorem length_text {it : Item} (h : it.Valid) : it.text.length = it.length := by
  cases it with
  | int w => rw [Item.text, itoa_ten h, Item.length]
  | str s => rw [Item.text, h.1, Item.length, List.length_cons, List.length_append, List.length_singleton]
  | hex bs =>
    have hhex : (hexText bs).length = 2 * bs.length := by
      simp [hexText, List.length_flatMap, Nat.mul_comm]
    rw [Item.text, Item.length, List.length_cons, List.length_append, List.length_singleton, hhex]

/-- The member of an error, with what follows it. -/
def errorBody (code : Int32) (msg rest : List UInt8) : List UInt8 :=
  chLeftBrace :: chQuote :: (textBytes "code" ++ chQuote :: chColon :: chSpace :: (itoa code 10 ++
    chComma :: chSpace :: chQuote :: (textBytes "message" ++ chQuote :: chColon :: chSpace ::
      chQuote :: (msg ++ chQuote :: chRightBrace :: rest))))

end MiMic.Rpc
