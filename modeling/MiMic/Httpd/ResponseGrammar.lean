import MiMic.Http.ChunkedGrammar
import MiMic.Http.HeaderRoundTrip

/-!
# One response

What a client takes for one response: a status line and fields, one of which announces the body,
the empty line, and the body that was announced. A head is told from its body in one way only.
-/
namespace MiMic.Http

open Verif.Decimal (decimal)

structure IsLine (l : List UInt8) : Prop where
  nonempty : l ≠ []
  plain : ∀ c ∈ l, c ≠ chCr ∧ c ≠ chLf

def linesText (ls : List (List UInt8)) : List UInt8 := (ls.flatMap fun l => l ++ crlf) ++ crlf

theorem linesText_cons (l : List UInt8) (ls : List (List UInt8)) (b : List UInt8) :
    linesText (l :: ls) ++ b = l ++ chCr :: (chLf :: (linesText ls ++ b)) := by
  simp [linesText, crlf]

theorem linesText_nil (b : List UInt8) : linesText [] ++ b = [] ++ chCr :: (chLf :: b) := rfl

theorem IsLine.cr_notMem {l : List UInt8} (h : IsLine l) : chCr ∉ l := fun hc => (h.plain _ hc).1 rfl

/-- What stands before the first CR. -/
theorem before_cr {x y s t : List UInt8} (hx : chCr ∉ x) (hy : chCr ∉ y)
    (h : x ++ chCr :: s = y ++ chCr :: t) : x = y ∧ s = t := by
  induction x generalizing y with
  | nil =>
    cases y with
    | nil => exact ⟨rfl, (List.cons.inj h).2⟩
    | cons d y => exact absurd ((List.cons.inj h).1 ▸ List.mem_cons_self) hy
  | cons c x ih =>
    cases y with
    | nil => exact absurd ((List.cons.inj h).1 ▸ List.mem_cons_self) hx
    | cons d y =>
      obtain ⟨rfl, htail⟩ := List.cons.inj h
      obtain ⟨rfl, rfl⟩ := ih (fun hc => hx (List.mem_cons_of_mem _ hc))
        (fun hc => hy (List.mem_cons_of_mem _ hc)) htail
      exact ⟨rfl, rfl⟩

/-- What a text of lines is, and where it ends, can be read off in one way only. -/
theorem linesText_unique {ls ms : List (List UInt8)} {b b' : List UInt8}
    (hls : ∀ l ∈ ls, IsLine l) (hms : ∀ m ∈ ms, IsLine m)
    (h : linesText ls ++ b = linesText ms ++ b') : ls = ms ∧ b = b' := by
  induction ls generalizing ms with
  | nil =>
    cases ms with
    | nil =>
      rw [linesText_nil, linesText_nil] at h
      exact ⟨rfl, (List.cons.inj (List.cons.inj h).2).2⟩
    | cons m ms =>
      have hm := hms m List.mem_cons_self
      rw [linesText_nil, linesText_cons] at h
      exact absurd (before_cr List.not_mem_nil hm.cr_notMem h).1.symm hm.nonempty
  | cons l ls ih =>
    have hl := hls l List.mem_cons_self
    cases ms with
    | nil =>
      rw [linesText_nil, linesText_cons] at h
      exact absurd (before_cr hl.cr_notMem List.not_mem_nil h).1 hl.nonempty
    | cons m ms =>
      have hm := hms m List.mem_cons_self
      rw [linesText_cons, linesText_cons] at h
      obtain ⟨rfl, hrest⟩ := before_cr hl.cr_notMem hm.cr_notMem h
      obtain ⟨rfl, rfl⟩ := ih (fun l hl => hls l (List.mem_cons_of_mem _ hl))
        (fun m hm => hms m (List.mem_cons_of_mem _ hm)) (List.cons.inj hrest).2
      exact ⟨rfl, rfl⟩

/-- A field: its name and what stands behind the colon. -/
structure HeadField where
  name : List UInt8
  value : List UInt8
  name_nonempty : name ≠ []
  name_plain : ∀ c ∈ name, c ≠ chCr ∧ c ≠ chLf ∧ c ≠ chColon
  value_plain : ∀ c ∈ value, c ≠ chCr ∧ c ≠ chLf

def HeadField.line (f : HeadField) : List UInt8 := f.name ++ [chColon] ++ f.value

theorem HeadField.isLine (f : HeadField) : IsLine f.line where
  nonempty := by simp [line, f.name_nonempty]
  plain c hc := by
    simp only [line, List.mem_append, List.mem_singleton] at hc
    obtain (hc | rfl) | hc := hc
    · exact ⟨(f.name_plain c hc).1, (f.name_plain c hc).2.1⟩
    · decide
    · exact f.value_plain c hc

/-- How a head says where its body ends. -/
inductive Framing
  | chunked
  | length (n : Nat)
deriving DecidableEq

/-- The name and the value of the field that says it. -/
def Framing.field : Framing → List UInt8 × List UInt8
  | .chunked => (ascii "Transfer-Encoding", ascii " chunked")
  | .length n => (ascii "Content-Length", [chSpace] ++ decimal n)

/-- The body that a head announces. -/
def Framing.Body : Framing → List UInt8 → Prop
  | .chunked, body => ∃ data, Chunked body data
  | .length n, body => body.length = n

/-- Names are compared without regard to case. -/
def HeadField.framing (f : HeadField) : Bool :=
  f.name.map toupper = ascii "TRANSFER-ENCODING" || f.name.map toupper = ascii "CONTENT-LENGTH"

def statusText (status : Nat) (reason : List UInt8) : List UInt8 :=
  version11 ++ [chSpace] ++ decimal status ++ [chSpace] ++ reason

/-- The head of a final response. -/
structure ResponseHead where
  status : Nat
  reason : List UInt8
  fields : List HeadField
  framing : Framing
  final : 200 ≤ status ∧ status < 1000
  reason_plain : ∀ c ∈ reason, c ≠ chCr ∧ c ≠ chLf
  announces : (fields.filter HeadField.framing).map (fun f => (f.name, f.value)) = [framing.field]

namespace ResponseHead

def lines (h : ResponseHead) : List (List UInt8) :=
  statusText h.status h.reason :: h.fields.map HeadField.line

def text (h : ResponseHead) : List UInt8 := linesText h.lines

theorem decimal_plain (n : Nat) : ∀ c ∈ decimal n, c ≠ chCr ∧ c ≠ chLf := by
  intro c hc
  have hdigit := digit_plain (Verif.Decimal.isDigit_decimal n c hc)
  exact hdigit.2.2

theorem lines_isLine (h : ResponseHead) : ∀ l ∈ h.lines, IsLine l := by
  intro l hl
  obtain rfl | hl := List.mem_cons.mp hl
  · refine ⟨by simp [statusText, version11], fun c hc => ?_⟩
    simp only [statusText, List.mem_append, List.mem_singleton] at hc
    obtain (((hc | rfl) | hc) | rfl) | hc := hc
    · have hall : ∀ c ∈ version11, c ≠ chCr ∧ c ≠ chLf := by decide
      exact hall c hc
    · decide
    · exact decimal_plain _ c hc
    · decide
    · exact h.reason_plain c hc
  · obtain ⟨f, -, rfl⟩ := List.mem_map.mp hl
    exact f.isLine

/-- The head ends where it ends, whatever stands behind it. -/
theorem text_unique {h h' : ResponseHead} {b b' : List UInt8} (heq : h.text ++ b = h'.text ++ b') :
    h.lines = h'.lines ∧ b = b' :=
  linesText_unique h.lines_isLine h'.lines_isLine heq

end ResponseHead

/-- No chunked body is the beginning of another one. -/
theorem chunked_ends {body body' data data' : List UInt8} (h : Chunked body data)
    (h' : Chunked body' data') (hpre : body <+: body') : body = body' := by
  obtain ⟨rest, rfl⟩ := hpre
  have hrun : grammarStep.run .start (body ++ rest) = .done body.length data :=
    Verif.Scanner.run_append_of_done ((chunked_iff_accepts _ _).mp h)
  rw [(chunked_iff_accepts _ _).mp h'] at hrun
  have hlen := (Verif.Verdict.done.inj hrun).1
  rw [List.length_append] at hlen
  have hrest : rest = [] := List.length_eq_zero_iff.mp (by omega)
  rw [hrest, List.append_nil]

/-- Exactly one response to a request: a head and the body that it announces, none to HEAD. -/
def OneResponse (m : HttpMethod) (bs : List UInt8) : Prop :=
  ∃ (h : ResponseHead) (body : List UInt8), bs = h.text ++ body ∧
    if m = .head then body = [] else h.framing.Body body

/-- The status of a final response does not begin with a one. -/
theorem decimal_final {n : Nat} (h : 200 ≤ n ∧ n < 1000) (ds : List UInt8) :
    decimal n ≠ 0x31 :: ds := by
  intro heq
  rw [Verif.Decimal.decimal_ge (by omega), Verif.Decimal.decimal_ge (by omega),
    Verif.Decimal.decimal_lt (by omega)] at heq
  have hhead := congrArg UInt8.toNat (List.cons.inj heq).1
  rw [Verif.Decimal.toNat_digit (by omega)] at hhead
  have hone : (0x31 : UInt8).toNat = 49 := rfl
  omega

/-- What begins with an interim response is no final one. -/
theorem not_oneResponse_interim (m : HttpMethod) (rest : List UInt8) :
    ¬ OneResponse m (ascii "HTTP/1.1 1" ++ rest) := by
  rintro ⟨h, body, heq, -⟩
  have hstart : ascii "HTTP/1.1 1" = version11 ++ [chSpace] ++ [0x31] := rfl
  have htext : h.text ++ body = version11 ++ [chSpace] ++
      (decimal h.status ++ ([chSpace] ++ h.reason ++ crlf ++
        (linesText (h.fields.map HeadField.line) ++ body))) := by
    simp [ResponseHead.text, ResponseHead.lines, linesText, statusText]
  rw [htext, hstart, List.append_assoc (version11 ++ [chSpace])] at heq
  have hnum := List.append_cancel_left heq
  cases hd : decimal h.status with
  | nil => exact Verif.Decimal.decimal_ne_nil _ hd
  | cons d ds =>
    rw [hd] at hnum
    have hone : (0x31 : UInt8) = d := (List.cons.inj hnum).1
    exact decimal_final h.final ds (hone ▸ hd)

/-- Behind the head of a response to HEAD nothing is sent. -/
theorem not_oneResponse_head (h : ResponseHead) {body : List UInt8} (hbody : body ≠ []) :
    ¬ OneResponse .head (h.text ++ body) := by
  rintro ⟨h', body', heq, hempty⟩
  rw [if_pos rfl] at hempty
  exact hbody ((ResponseHead.text_unique heq).2.trans hempty)

theorem Framing.line_of_length {h : ResponseHead} {n : Nat} (hf : h.framing = .length n) :
    ∃ l ∈ h.lines, ascii "Content-Length:" <+: l := by
  have hann := h.announces
  rw [hf] at hann
  have hmem : (Framing.length n).field ∈
      (h.fields.filter HeadField.framing).map fun f => (f.name, f.value) := by
    rw [hann]
    exact List.mem_singleton_self _
  obtain ⟨f, hfilter, hfield⟩ := List.mem_map.mp hmem
  refine ⟨f.line, List.mem_cons_of_mem _ (List.mem_map_of_mem (List.mem_filter.mp hfilter).1), ?_⟩
  have hname : f.name = ascii "Content-Length" := congrArg Prod.fst hfield
  have hcolon : ascii "Content-Length:" = ascii "Content-Length" ++ [chColon] := rfl
  rw [HeadField.line, hname, hcolon]
  exact List.prefix_append _ _

/-- A chunked body that goes on behind its last chunk. -/
theorem not_oneResponse_chunked {m : HttpMethod} (hm : m ≠ .head) (h : ResponseHead)
    (hlines : ∀ l ∈ h.lines, ¬ ascii "Content-Length:" <+: l) {body rest data : List UInt8}
    (hbody : Chunked body data) (hrest : rest ≠ []) : ¬ OneResponse m (h.text ++ (body ++ rest)) := by
  rintro ⟨h', body', heq, hframed⟩
  rw [if_neg hm] at hframed
  obtain ⟨hsame, rfl⟩ := ResponseHead.text_unique heq
  cases hf : h'.framing with
  | chunked =>
    rw [hf] at hframed
    obtain ⟨data', hdata'⟩ := hframed
    have heq := chunked_ends hbody hdata' (List.prefix_append _ _)
    exact hrest (List.self_eq_append_right.mp heq)
  | length n =>
    obtain ⟨l, hl, hpre⟩ := Framing.line_of_length hf
    exact hlines l (hsame ▸ hl) hpre

end MiMic.Http
