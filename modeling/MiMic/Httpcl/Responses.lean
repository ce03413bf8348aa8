import MiMic.Http.HeaderRoundTrip
import MiMic.Httpcl.Client

/-!
# Responses on the stream

What a server sends to `NyLPC_cHttpClient_getStatus`: responses with the status 100, the one behind
them, and its body. A head that is within the limits of the parser is read as what it says, if it
arrives whole.
-/
namespace MiMic.Httpcl

open Verif Http BasicHeaderParser
open Verif.Decimal (decimal)

/-- A field of a header, with the spaces in front of its value. -/
structure Field where
  name : List UInt8
  spaces : Nat
  value : List UInt8

namespace Field

def line (f : Field) : List UInt8 :=
  f.name ++ ([chColon] ++ (List.replicate f.spaces chSpace ++ (f.value ++ ascii "\r\n")))

/-- The name is `name`, which is written in capitals. -/
def Is (f : Field) (name : List UInt8) : Prop := f.name.map toupper = name

instance (f : Field) (name : List UInt8) : Decidable (f.Is name) := inferInstanceAs (Decidable (_ = _))

/-- A field as a message can carry it. -/
structure Valid (f : Field) : Prop where
  ne_nil : f.name ≠ []
  name : ∀ c ∈ f.name, chSpace < c ∧ c ≠ chColon
  head_ne : f.value.head? ≠ some chSpace
  value : ∀ c ∈ f.value, c ≠ 0 ∧ c ≠ chCr ∧ c ≠ chLf

/-- What a field says. -/
def apply (out : BasicHeader) (f : Field) : BasicHeader :=
  if f.Is (ascii "CONNECTION") then
    { out with connection :=
      ((connectionTable.find? fun e => f.value.map toupper = e.1).map Prod.snd).getD .unknown }
  else if f.Is (ascii "CONTENT-LENGTH") then
    { out with contentLength := UInt32.ofNat (Decimal.value f.value) }
  else if f.Is (ascii "TRANSFER-ENCODING") then
    { out with transferEncoding :=
      if f.value.map toupper = ascii "CHUNKED" then .chunked else .unknown }
  else out

/-- The parser has room for the name, and for the value where it reads that. -/
structure Fits (f : Field) : Prop where
  name : f.name.length ≤ 31
  value : (∃ e ∈ knownMsg, f.Is e.1) → f.value ≠ [] ∧ f.value.length ≤ 31
  length : f.Is (ascii "CONTENT-LENGTH") → ∃ n < 2 ^ 31, f.value = decimal n

end Field

/-- The head of a response. -/
structure Head where
  isV11 : Bool
  status : Nat
  reason : List UInt8
  fields : List Field

namespace Head

def version (h : Head) : List UInt8 := if h.isV11 then version11 else ascii "HTTP/1.0"

def statusLine (h : Head) : List UInt8 :=
  h.version ++ [chSpace] ++ (decimal h.status ++ [chSpace]) ++ ((h.reason ++ [chCr]) ++ [chLf])

def text (h : Head) : List UInt8 := h.statusLine ++ h.fields.flatMap Field.line ++ ascii "\r\n"

/-- A head with a status of three digits. -/
structure Valid (h : Head) : Prop where
  status_ge : 100 ≤ h.status
  status_lt : h.status < 1000
  reason : chLf ∉ h.reason
  fields : ∀ f ∈ h.fields, f.Valid

/-- What the head says, over what the memory for the header held. -/
def header (h : Head) (out : BasicHeader) : BasicHeader :=
  h.fields.foldl Field.apply
    { out with
      connection := .none
      contentLength := invalidLength
      transferEncoding := .none
      version := some (if h.isV11 then .v11 else .v10)
      type := .response
      status := UInt32.ofNat h.status }

/-- The parser has room for the fields, and accepts what they say together. -/
structure Fits (h : Head) : Prop where
  fields : ∀ f ∈ h.fields, f.Fits
  test : ∀ out, ∃ header, testHeader (h.header out) = .ok header

end Head

section

variable {σ : Type} {H : HeaderHandler σ} {p : BasicHeaderParser σ} {out : BasicHeader} {u : σ}

theorem str_toUpper {v : List UInt8} (h : ∀ c ∈ v, c ≠ 0) (s : Nat) :
    (CStr.mk s v.length v).toUpper.str = v.map toupper := by
  have hstr : (CStr.mk s v.length v).str = v := cString_of_ne_zero h
  rw [CStr.toUpper, hstr, CStr.str]
  show cString (v.map toupper ++ v.drop v.length) = _
  rw [List.drop_length, List.append_nil]
  exact cString_of_ne_zero (map_toupper_ne_zero h)

theorem Field.Valid.isFieldName {f : Field} (h : f.Valid) (hf : f.Fits) : IsFieldName f.name where
  ne_nil := h.ne_nil
  length_le := hf.name
  plain c hc := by
    have hlt := UInt8.lt_iff_toNat_lt.mp (h.name c hc).1
    have hsp : chSpace.toNat = 32 := rfl
    refine ⟨?_, (h.name c hc).2, ?_, ?_⟩ <;> intro heq <;> rw [heq] at hlt <;> exact absurd hlt (by decide)

theorem Field.Valid.isShortValue {f : Field} (h : f.Valid) (hf : f.Fits)
    (hknown : ∃ e ∈ knownMsg, f.Is e.1) : IsShortValue f.value :=
  ⟨(hf.value hknown).1, (hf.value hknown).2, h.head_ne, h.value⟩

/-- A field with a value that is looked at. -/
theorem reads_knownField (h : p.At .msgHead out u) {f : Field} (hv : f.Valid) (hf : f.Fits)
    {e : List UInt8 × HeaderSt} (he : e ∈ knownMsg) (hname : f.Is e.1) {out' : BasicHeader}
    {close : BasicHeaderParser σ → BasicHeaderParser σ} (hone : Collects H close e.2)
    (hclose : ∀ q : BasicHeaderParser σ, q.wsb = ⟨31, f.value.length, f.value⟩ → q.out = out →
      q.user = u → (close q).At .msgHead out' u) :
    ∃ q, Reads H p f.line q ∧ q.At .msgHead out' u := by
  have hfind : ∀ e ∈ knownMsg, knownMsg.find? (fun e' => e.1 = e'.1) = some e := by decide
  have hlive : ∀ e ∈ knownMsg, e.2 ≠ .error ∧ e.2 ≠ .eoh := by decide
  have hfound : knownMsg.find? (fun e' => f.name.map toupper = e'.1) = some e := by
    rw [hname]
    exact hfind e he
  exact reads_knownSpaced h (hv.isFieldName hf) hfound (hlive e he) hone
    (hv.isShortValue hf ⟨e, he, hname⟩) hclose f.spaces

/-- A field that is passed over. -/
theorem reads_otherField (hm : H.messageHandler = none) (h : p.At .msgHead out u) {f : Field}
    (hv : f.Valid) (hf : f.Fits) (hunknown : ∀ e ∈ knownMsg, ¬ f.Is e.1) :
    ∃ q, Reads H p f.line q ∧ q.At .msgHead out u := by
  have hlf : chLf ∉ List.replicate f.spaces chSpace ++ (f.value ++ [chCr]) := by
    intro hm
    rcases List.mem_append.mp hm with hs | hm
    · exact absurd (List.eq_of_mem_replicate hs) (by decide)
    · rcases List.mem_append.mp hm with hval | hcr
      · exact (hv.value _ hval).2.2 rfl
      · exact absurd (List.mem_singleton.mp hcr) (by decide)
  have hline : f.line = f.name ++ ([chColon] ++
      (List.replicate f.spaces chSpace ++ (f.value ++ [chCr]) ++ [chLf])) := by
    rw [Field.line]
    simp only [List.append_assoc]
    rfl
  rw [hline]
  exact reads_unheard hm h (hv.isFieldName hf) hunknown hlf

/-- One field. -/
theorem reads_field (hm : H.messageHandler = none) (h : p.At .msgHead out u) {f : Field}
    (hv : f.Valid) (hf : f.Fits) : ∃ q, Reads H p f.line q ∧ q.At .msgHead (f.apply out) u := by
  have hzero : ∀ c ∈ f.value, c ≠ 0 := fun c hc => (hv.value c hc).1
  rw [Field.apply]
  by_cases hconn : f.Is (ascii "CONNECTION")
  · rw [if_pos hconn]
    apply reads_knownField h hv hf (e := (ascii "CONNECTION", .msgConnection)) (by decide) hconn
      collects_connection
    intro q hwsb hout huser
    refine ⟨rfl, rfl, congrArg CStr.s hwsb, ?_, huser⟩
    simp only [hwsb, hout, str_toUpper hzero]
  rw [if_neg hconn]
  by_cases hlen : f.Is (ascii "CONTENT-LENGTH")
  · rw [if_pos hlen]
    apply reads_knownField h hv hf (e := (ascii "CONTENT-LENGTH", .msgContentLength)) (by decide) hlen
      collects_contentLength
    intro q hwsb hout huser
    obtain ⟨n, hn, hval⟩ := hf.length hlen
    have hstr : strtol q.wsb.str = some ((n : Int), []) := by
      rw [hwsb, CStr.str, cString_of_ne_zero hzero, hval, strtol_decimal hn]
    simp only [hstr]
    refine ⟨rfl, rfl, congrArg CStr.s hwsb, ?_, huser⟩
    show { q.out with contentLength := UInt32.ofInt (n : Int) } = _
    rw [hout, ofInt_natCast, hval, Decimal.value_decimal]
  rw [if_neg hlen]
  by_cases henc : f.Is (ascii "TRANSFER-ENCODING")
  · rw [if_pos henc]
    apply reads_knownField h hv hf (e := (ascii "TRANSFER-ENCODING", .msgTransferEncoding)) (by decide)
      henc collects_transferEncoding
    intro q hwsb hout huser
    refine ⟨rfl, rfl, congrArg CStr.s hwsb, ?_, huser⟩
    simp only [hwsb, hout, str_toUpper hzero]
  rw [if_neg henc]
  apply reads_otherField hm h hv hf
  intro e he
  simp only [knownMsg, List.mem_cons, List.not_mem_nil, or_false] at he
  rcases he with rfl | rfl | rfl
  · exact hconn
  · exact hlen
  · exact henc

/-- All fields. -/
theorem reads_headFields (hm : H.messageHandler = none) {fields : List Field} (h : p.At .msgHead out u)
    (hv : ∀ f ∈ fields, f.Valid) (hf : ∀ f ∈ fields, f.Fits) :
    ∃ q, Reads H p (fields.flatMap Field.line) q ∧ q.At .msgHead (fields.foldl Field.apply out) u := by
  induction fields generalizing p out with
  | nil => exact ⟨p, Reads.nil (live_of_st h.st_eq (by decide)), h⟩
  | cons f fs ih =>
    obtain ⟨q, hq, hqat⟩ := reads_field hm h (hv f (List.mem_cons_self ..)) (hf f (List.mem_cons_self ..))
    obtain ⟨r, hr, hrat⟩ := ih hqat (fun g hg => hv g (List.mem_cons_of_mem _ hg))
      (fun g hg => hf g (List.mem_cons_of_mem _ hg))
    exact ⟨r, hq.append hr, hrat⟩

/-- The lines of a head, from where a new parser stands. -/
theorem reads_head (hm : H.messageHandler = none) (h : p.At .start out u) {hd : Head} (hv : hd.Valid)
    (hf : ∀ f ∈ hd.fields, f.Fits) :
    ∃ q, Reads H p (hd.statusLine ++ hd.fields.flatMap Field.line) q ∧
      q.At .msgHead (hd.fields.foldl Field.apply
        { out with
          version := some (if hd.isV11 then .v11 else .v10)
          type := .response
          status := UInt32.ofNat hd.status }) u := by
  have hlf : chLf ∉ hd.reason ++ [chCr] := by
    intro hm
    rcases List.mem_append.mp hm with hm | hcr
    · exact hv.reason hm
    · exact absurd (List.mem_singleton.mp hcr) (by decide)
  have hn : hd.status < 2 ^ 31 := lt_trans hv.status_lt (by decide)
  have hstart : ∃ q, Reads H p hd.statusLine q ∧
      q.At .msgHead { out with
        version := some (if hd.isV11 then .v11 else .v10)
        type := .response
        status := UInt32.ofNat hd.status } u := by
    unfold Head.statusLine Head.version
    cases hd.isV11 with
    | true =>
      exact reads_statusLineOf h (by decide) (by decide) (by decide) parseHttpVersionStr_version11 hn hlf
    | false => exact reads_statusLineOf h (by decide) (by decide) (by decide) (v := .v10) (by decide) hn hlf
  obtain ⟨q, hq, hqat⟩ := hstart
  obtain ⟨r, hr, hrat⟩ := reads_headFields hm hqat hv.fields hf
  exact ⟨r, hq.append hr, hrat⟩

end

/-- How much reads of these sizes show, up to one that times out. -/
def arrived : List Nat → Nat
  | [] => 0
  | n :: ns => if n = 0 then 0 else n + arrived ns

theorem flatten_cut (rx : List UInt8) (sizes : List Nat) :
    ((cut rx sizes).takeWhile fun r => r ≠ []).flatten = rx.take (arrived sizes) := by
  induction sizes generalizing rx with
  | nil => rfl
  | cons n ns ih =>
    rw [cut, arrived]
    by_cases hn : n = 0
    · rw [if_pos hn, hn, List.takeWhile_cons_of_neg (by simp)]
      rfl
    rw [if_neg hn]
    by_cases hr : rx.take n = []
    · have hrx : rx = [] := (List.take_eq_nil_iff.mp hr).resolve_left hn
      rw [List.takeWhile_cons_of_neg (by simp [hr]), hrx, List.take_nil]
      rfl
    · rw [List.takeWhile_cons_of_pos (by simp [hr]), List.flatten_cons, ih, List.take_add]

section

variable {σ : Type} {H : HeaderHandler σ}

/-- The reads come to what they show together. -/
theorem parseStream_cut (p : BasicHeaderParser σ) (hp : p.Live) (rx : List UInt8) (sizes : List Nat) :
    parseStream H p (cut rx sizes) = streamResult (parseLoop H p (rx.take (arrived sizes))) := by
  have hne : ∀ r ∈ (cut rx sizes).takeWhile fun r => r ≠ [], r ≠ [] := by
    intro r hr
    simpa using List.mem_takeWhile_imp hr
  rw [← parseStream_takeWhile, parseStream_eq p hp _ hne, flatten_cut]

end

/-- A header is accepted when all that is shown of it ends it, and it passes the test. -/
theorem parse_cut (out : BasicHeader) (rx : List UInt8) (sizes : List Nat)
    {r : Nat × BasicHeaderParser Unit}
    (hr : parseLoop noHandlers (ofHandlers out ()).parseInit (rx.take (arrived sizes)) = r) :
    parse noHandlers (ofHandlers out ()) (cut rx sizes) =
      if r.2.st = .eoh then ⟨r.2.parseFinish.1, r.2.parseFinish.2, r.1⟩ else ⟨false, r.2, r.1⟩ := by
  rw [parse, parseStream_cut _ (live_parseInit _), hr, streamResult]
  by_cases hend : r.2.st = .eoh
  · rw [if_pos hend]
    simp only [hend, decide_true, if_true]
  · rw [if_neg hend]
    simp only [hend, decide_false, Bool.false_eq_true, if_false]

/-- The memory of a call before its header parser has looked at anything. -/
theorem at_start (out : BasicHeader) : ((ofHandlers out ()).parseInit).At .start
    { out with connection := .none, contentLength := invalidLength, transferEncoding := .none } () :=
  ⟨rfl, rfl, rfl, rfl, rfl⟩

section

variable {hd : Head} {sizes : List Nat}

/-- A head that arrives is accepted up to its end. -/
theorem parse_head (hv : hd.Valid) (hf : hd.Fits) (out : BasicHeader) (rest : List UInt8)
    (hlen : hd.text.length ≤ arrived sizes) :
    ∃ header, testHeader (hd.header out) = .ok header ∧
      (parse noHandlers (ofHandlers out ()) (cut (hd.text ++ rest) sizes)).ok = true ∧
      (parse noHandlers (ofHandlers out ()) (cut (hd.text ++ rest) sizes)).consumed = hd.text.length ∧
      (parse noHandlers (ofHandlers out ()) (cut (hd.text ++ rest) sizes)).parser.out = header := by
  obtain ⟨header, htest⟩ := hf.test out
  obtain ⟨q, hq, hat⟩ := reads_head (H := noHandlers) rfl (at_start out) hv hf.fields
  have hsplit : (hd.text ++ rest).take (arrived sizes) =
      (hd.statusLine ++ hd.fields.flatMap Field.line) ++
        (ascii "\r\n" ++ rest.take (arrived sizes - hd.text.length)) := by
    rw [List.take_append, List.take_of_length_le hlen, Head.text, List.append_assoc _ (ascii "\r\n")]
  have hrun : parseLoop noHandlers (ofHandlers out ()).parseInit
      ((hd.text ++ rest).take (arrived sizes)) =
        ((hd.statusLine ++ hd.fields.flatMap Field.line).length + 2, q.goOn .eoh) := by
    rw [hsplit, hq.parseLoop, parseLoop_end hat]
  have hfinish : (q.goOn .eoh).parseFinish = (true, { q.goOn .eoh with out := header }) := by
    have hout : (q.goOn .eoh).out = hd.header out := hat.out_eq
    rw [parseFinish, if_neg (fun hne => hne rfl), hout, htest]
  have hlen' : hd.text.length = (hd.statusLine ++ hd.fields.flatMap Field.line).length + 2 := by
    rw [Head.text, List.length_append]
    rfl
  have hparse : parse noHandlers (ofHandlers out ()) (cut (hd.text ++ rest) sizes) =
      ⟨true, { q.goOn .eoh with out := header }, hd.text.length⟩ := by
    rw [parse_cut out _ sizes hrun, if_pos (show (q.goOn .eoh).st = .eoh from rfl), hfinish, hlen']
  rw [hparse]
  exact ⟨header, htest, rfl, rfl, rfl⟩

/-- A part of a head is not accepted. -/
theorem parse_head_short (hv : hd.Valid) (hf : hd.Fits) (out : BasicHeader) (rest : List UInt8)
    (hlen : arrived sizes < hd.text.length) :
    (parse noHandlers (ofHandlers out ()) (cut (hd.text ++ rest) sizes)).ok = false := by
  obtain ⟨q, hq, hat⟩ := reads_head (H := noHandlers) rfl (at_start out) hv hf.fields
  have hread := hq.append (reads_cr hat)
  have htext : hd.text = (hd.statusLine ++ hd.fields.flatMap Field.line ++ [chCr]) ++ [chLf] := by
    rw [Head.text, List.append_assoc _ [chCr]]
    rfl
  have hle : arrived sizes ≤ (hd.statusLine ++ hd.fields.flatMap Field.line ++ [chCr]).length := by
    rw [htext, List.length_append, List.length_singleton] at hlen
    exact Nat.lt_succ_iff.mp hlen
  obtain ⟨r, hr⟩ := hread.take (live_parseInit _) (arrived sizes)
  have hrun := congrArg (parseLoop noHandlers (ofHandlers out ()).parseInit)
    (List.take_append_of_le_length hlen.le : (hd.text ++ rest).take (arrived sizes) = _)
  rw [htext, List.take_append_of_le_length hle, hr.1, ← htext] at hrun
  rw [parse_cut out _ sizes hrun, if_neg hr.2.2]

end

theorem foldl_apply_keeps (fields : List Field) (out : BasicHeader) :
    (fields.foldl Field.apply out).type = out.type ∧ (fields.foldl Field.apply out).status = out.status := by
  induction fields generalizing out with
  | nil => exact ⟨rfl, rfl⟩
  | cons f fs ih =>
    have hone : (f.apply out).type = out.type ∧ (f.apply out).status = out.status := by
      rw [Field.apply]
      repeat' split
      all_goals exact ⟨rfl, rfl⟩
    rw [List.foldl_cons, (ih _).1, (ih _).2]
    exact hone

theorem testHeader_keeps {h h' : BasicHeader} (htest : testHeader h = .ok h') :
    h'.type = h.type ∧ h'.status = h.status := by
  rw [testHeader] at htest
  repeat' split at htest
  all_goals cases htest
  all_goals exact ⟨rfl, rfl⟩

/-- What is read of a head is a response with its status. -/
theorem Head.header_keeps {hd : Head} {out header : BasicHeader}
    (htest : testHeader (hd.header out) = .ok header) :
    header.type = .response ∧ header.status = UInt32.ofNat hd.status := by
  have hfold := foldl_apply_keeps hd.fields
    { out with
      connection := .none
      contentLength := invalidLength
      transferEncoding := .none
      version := some (if hd.isV11 then .v11 else .v10)
      type := .response
      status := UInt32.ofNat hd.status }
  rw [(testHeader_keeps htest).1, (testHeader_keeps htest).2]
  exact hfold

theorem ofNat_eq_hundred {n : Nat} (hn : n < 1000) : UInt32.ofNat n = 100 ↔ n = 100 := by
  constructor
  · intro h
    have hnat := congrArg UInt32.toNat h
    rw [UInt32.toNat_ofNat_of_lt' (lt_trans hn (by decide))] at hnat
    exact hnat
  · rintro rfl
    rfl

/-- One round of the loop. -/
theorem readHeaders_head {hd : Head} (hv : hd.Valid) (hf : hd.Fits) (out : BasicHeader)
    (rest : List UInt8) (sizes : List Nat) (later : List (List Nat)) :
    (hd.text.length ≤ arrived sizes → ∃ header, testHeader (hd.header out) = .ok header ∧
      readHeaders out (hd.text ++ rest) (sizes :: later) =
        if hd.status = 100 then readHeaders header rest later else (some header, rest)) ∧
    (¬ hd.text.length ≤ arrived sizes →
      (readHeaders out (hd.text ++ rest) (sizes :: later)).1 = none) := by
  constructor
  · intro hlen
    obtain ⟨header, htest, hok, hconsumed, hout⟩ := parse_head hv hf out rest hlen
    obtain ⟨htype, hstatus⟩ := Head.header_keeps htest
    refine ⟨header, htest, ?_⟩
    rw [readHeaders]
    simp only [hok, hconsumed, hout, htype, hstatus, List.drop_left, ofNat_eq_hundred hv.status_lt]
    rfl
  · intro hlen
    have hok := parse_head_short hv hf out rest (Nat.lt_of_not_le hlen)
    rw [readHeaders]
    simp only [hok]
    rfl

/-- The heads arrive, each in the reads for it. -/
def Arrive : List Head → List (List Nat) → Prop
  | [], _ => True
  | _ :: _, [] => False
  | hd :: heads, sizes :: later => hd.text.length ≤ arrived sizes ∧ Arrive heads later

/-- The loop stops at the first head that has another status, if that and those before it arrive. -/
theorem readHeaders_heads {heads : List Head} {final : Head}
    (hheads : ∀ hd ∈ heads, (hd.Valid ∧ hd.status = 100) ∧ hd.Fits) (hv : final.Valid)
    (hstatus : final.status ≠ 100) (hf : final.Fits) (out : BasicHeader) (rest : List UInt8)
    (sizes : List (List Nat)) :
    (Arrive (heads ++ [final]) sizes → ∃ out' header, testHeader (final.header out') = .ok header ∧
      readHeaders out (heads.flatMap Head.text ++ (final.text ++ rest)) sizes = (some header, rest)) ∧
    (¬ Arrive (heads ++ [final]) sizes →
      (readHeaders out (heads.flatMap Head.text ++ (final.text ++ rest)) sizes).1 = none) := by
  induction heads generalizing out sizes with
  | nil =>
    cases sizes with
    | nil => exact ⟨fun h => h.elim, fun _ => rfl⟩
    | cons ns later =>
      obtain ⟨hgood, hshort⟩ := readHeaders_head hv hf out rest ns later
      refine ⟨fun h => ?_, fun h => hshort fun hlen => h ⟨hlen, trivial⟩⟩
      obtain ⟨header, htest, hread⟩ := hgood h.1
      rw [if_neg hstatus] at hread
      exact ⟨out, header, htest, hread⟩
  | cons hd heads ih =>
    rw [List.cons_append, List.flatMap_cons, List.append_assoc]
    cases sizes with
    | nil => exact ⟨fun h => h.elim, fun _ => rfl⟩
    | cons ns later =>
      obtain ⟨⟨hdv, hd100⟩, hdf⟩ := hheads hd (List.mem_cons_self ..)
      obtain ⟨hgood, hshort⟩ := readHeaders_head hdv hdf out
        (heads.flatMap Head.text ++ (final.text ++ rest)) ns later
      by_cases hlen : hd.text.length ≤ arrived ns
      · obtain ⟨header, -, hread⟩ := hgood hlen
        rw [hread, if_pos hd100]
        obtain ⟨hrest, hnone⟩ := ih (fun g hg => hheads g (List.mem_cons_of_mem _ hg)) header later
        exact ⟨fun h => hrest h.2, fun h => hnone fun hl => h ⟨hlen, hl⟩⟩
      · exact ⟨fun h => absurd h.1 hlen, fun _ => hshort hlen⟩

/-- The responses that have no body. -/
def Head.Bodiless (h : Head) : Prop := h.status < 200 ∨ h.status = 204 ∨ h.status = 304

/-- The body that stands behind a head, and what is behind that: no body for the status, chunks, the
length that is given, or all up to the end of the connection. -/
inductive Head.Frames (h : Head) : HttpBody → List UInt8 → Prop
  | bodiless (rest : List UInt8) : h.Bodiless → Frames h (.plain [] (by decide)) rest
  | chunked (enc data : List UInt8) (valid : Chunked enc data) (rest : List UInt8) : ¬ h.Bodiless →
      (∃ f ∈ h.fields, f.Is (ascii "TRANSFER-ENCODING") ∧ f.value.map toupper = ascii "CHUNKED") →
      Frames h (.chunked enc data valid) rest
  | length (data : List UInt8) (fits : data.length < 2 ^ 32) (rest : List UInt8) : ¬ h.Bodiless →
      (∀ f ∈ h.fields, ¬ f.Is (ascii "TRANSFER-ENCODING")) →
      (∃ f ∈ h.fields, f.Is (ascii "CONTENT-LENGTH")) →
      (∀ f ∈ h.fields, f.Is (ascii "CONTENT-LENGTH") → f.value = decimal data.length) →
      Frames h (.plain data fits) rest
  | toEnd (data : List UInt8) (fits : data.length < 2 ^ 32) : ¬ h.Bodiless →
      (∀ f ∈ h.fields, ¬ f.Is (ascii "TRANSFER-ENCODING") ∧ ¬ f.Is (ascii "CONTENT-LENGTH")) →
      Frames h (.plain data fits) []

/-- The header gives the length of the body, or says that it comes in chunks; without a length it is
taken for empty. -/
def Head.Announces (h : Head) (b : HttpBody) : Prop :=
  ∀ out header, testHeader (h.header out) = .ok header →
    match b with
    | .plain data _ => header.transferEncoding ≠ .chunked ∧ header.contentLength = UInt32.ofNat data.length
    | .chunked .. => header.transferEncoding = .chunked

/-- What a server sends for one request, and what comes behind it. -/
structure Response where
  continues : List Head
  final : Head
  body : HttpBody
  rest : List UInt8

namespace Response

def heads (m : Response) : List Head := m.continues ++ [m.final]

def text (m : Response) : List UInt8 :=
  m.continues.flatMap Head.text ++ (m.final.text ++ (m.body.enc ++ m.rest))

structure Valid (m : Response) : Prop where
  continues : ∀ h ∈ m.continues, h.Valid ∧ h.status = 100
  final : m.final.Valid
  status : m.final.status ≠ 100
  frames : m.final.Frames m.body m.rest

/-- The two parsers can take it. -/
structure Fits (m : Response) : Prop where
  heads : ∀ h ∈ m.heads, h.Fits
  announces : m.final.Announces m.body
  noExtension : m.body.NoExtension

end Response

theorem bodyParserOf_init {h : Head} {b : HttpBody} (hb : h.Announces b) {out header : BasicHeader}
    (htest : testHeader (h.header out) = .ok header) (p : BasicBodyParser) :
    bodyParserOf p header = b.init p := by
  have hann := hb out header htest
  rw [bodyParserOf]
  cases b with
  | plain data fits =>
    rw [if_neg hann.1, hann.2]
    rfl
  | chunked enc data valid =>
    rw [if_pos hann]
    rfl

/-- A part of the header that only the fields with one name set, all of them to the same. -/
theorem foldl_apply_part {α : Type} (part : BasicHeader → α) (name : List UInt8) (v : α)
    (hkeep : ∀ out (f : Field), ¬ f.Is name → part (f.apply out) = part out) {fields : List Field}
    (hset : ∀ f ∈ fields, f.Is name → ∀ out, part (f.apply out) = v) (out : BasicHeader) :
    part (fields.foldl Field.apply out) = if ∃ f ∈ fields, f.Is name then v else part out := by
  induction fields generalizing out with
  | nil => rw [if_neg (fun ⟨f, hf, _⟩ => nomatch hf), List.foldl_nil]
  | cons f fs ih =>
    rw [List.foldl_cons, ih (fun g hg => hset g (List.mem_cons_of_mem _ hg))]
    by_cases hrest : ∃ g ∈ fs, g.Is name
    · obtain ⟨g, hg, hname⟩ := hrest
      rw [if_pos ⟨g, hg, hname⟩, if_pos ⟨g, List.mem_cons_of_mem _ hg, hname⟩]
    rw [if_neg hrest]
    by_cases hname : f.Is name
    · rw [if_pos ⟨f, List.mem_cons_self .., hname⟩, hset f (List.mem_cons_self ..) hname]
    · rw [if_neg, hkeep out f hname]
      rintro ⟨g, hg, hgn⟩
      rcases List.mem_cons.mp hg with rfl | hg
      · exact hname hgn
      · exact hrest ⟨g, hg, hgn⟩

theorem apply_version (out : BasicHeader) (f : Field) : (f.apply out).version = out.version := by
  rw [Field.apply]
  repeat' split
  all_goals rfl

theorem apply_contentLength (out : BasicHeader) (f : Field) : (f.apply out).contentLength =
    if f.Is (ascii "CONTENT-LENGTH") then UInt32.ofNat (Decimal.value f.value) else out.contentLength := by
  rw [Field.apply]
  by_cases hconn : f.Is (ascii "CONNECTION")
  · have hne : ¬ f.Is (ascii "CONTENT-LENGTH") := fun h => absurd (hconn.symm.trans h) (by decide)
    rw [if_pos hconn, if_neg hne]
  · rw [if_neg hconn]
    repeat' split
    all_goals rfl

theorem apply_transferEncoding (out : BasicHeader) (f : Field) : (f.apply out).transferEncoding =
    if f.Is (ascii "TRANSFER-ENCODING") then
      if f.value.map toupper = ascii "CHUNKED" then .chunked else .unknown
    else out.transferEncoding := by
  rw [Field.apply]
  by_cases henc : f.Is (ascii "TRANSFER-ENCODING")
  · have hconn : ¬ f.Is (ascii "CONNECTION") := fun h => absurd (henc.symm.trans h) (by decide)
    have hlen : ¬ f.Is (ascii "CONTENT-LENGTH") := fun h => absurd (henc.symm.trans h) (by decide)
    rw [if_neg hconn, if_neg hlen, if_pos henc, if_pos henc]
  · rw [if_neg henc]
    repeat' split
    all_goals rfl

theorem Head.header_version (h : Head) (out : BasicHeader) :
    (h.header out).version = some (if h.isV11 then .v11 else .v10) := by
  have hfold : ∀ (fields : List Field) (out : BasicHeader),
      (fields.foldl Field.apply out).version = out.version := by
    intro fields
    induction fields with
    | nil => exact fun out => rfl
    | cons f fs ih =>
      intro out
      rw [List.foldl_cons, ih, apply_version]
  exact hfold h.fields _

/-- The encoding is what the fields with its name say, and the length is what those with its name say. -/
theorem Head.header_framing (h : Head) (out : BasicHeader) {n : Nat}
    (henc : ∀ f ∈ h.fields, f.Is (ascii "TRANSFER-ENCODING") → f.value.map toupper = ascii "CHUNKED")
    (hlen : ∀ f ∈ h.fields, f.Is (ascii "CONTENT-LENGTH") → f.value = decimal n) :
    (h.header out).transferEncoding =
        (if ∃ f ∈ h.fields, f.Is (ascii "TRANSFER-ENCODING") then .chunked else .none) ∧
      (h.header out).contentLength =
        if ∃ f ∈ h.fields, f.Is (ascii "CONTENT-LENGTH") then UInt32.ofNat n else invalidLength := by
  constructor
  · apply foldl_apply_part BasicHeader.transferEncoding
    · intro out f hne
      rw [apply_transferEncoding, if_neg hne]
    · intro f hf hname out
      rw [apply_transferEncoding, if_pos hname, if_pos (henc f hf hname)]
  · apply foldl_apply_part BasicHeader.contentLength
    · intro out f hne
      rw [apply_contentLength, if_neg hne]
    · intro f hf hname out
      rw [apply_contentLength, if_pos hname, hlen f hf hname, Decimal.value_decimal]

/-- A length below 2^31 and no encoding is accepted, and is the length of the body. -/
theorem Head.takes_length {h : Head} (hf : ∀ f ∈ h.fields, f.Fits) {data : List UInt8}
    (fits : data.length < 2 ^ 32) (hsmall : data.length < 2 ^ 31)
    (henc : ∀ f ∈ h.fields, ¬ f.Is (ascii "TRANSFER-ENCODING"))
    (hex : ∃ f ∈ h.fields, f.Is (ascii "CONTENT-LENGTH"))
    (hlen : ∀ f ∈ h.fields, f.Is (ascii "CONTENT-LENGTH") → f.value = decimal data.length) :
    h.Fits ∧ h.Announces (.plain data fits) := by
  have hparts : ∀ out, (h.header out).transferEncoding = .none ∧
      (h.header out).contentLength = UInt32.ofNat data.length := by
    intro out
    obtain ⟨he, hl⟩ := h.header_framing out (fun f hf hname => absurd hname (henc f hf)) hlen
    have hnone : ¬∃ f ∈ h.fields, f.Is (ascii "TRANSFER-ENCODING") := by
      simpa using henc
    rw [if_neg hnone] at he
    rw [if_pos hex] at hl
    exact ⟨he, hl⟩
  have hvalid : UInt32.ofNat data.length ≠ invalidLength := by
    intro heq
    have hnat := congrArg UInt32.toNat heq
    rw [UInt32.toNat_ofNat_of_lt' fits] at hnat
    exact absurd (hnat ▸ hsmall) (by decide)
  have htest : ∀ out, ∃ header, testHeader (h.header out) = .ok header ∧
      header.transferEncoding = .none ∧ header.contentLength = UInt32.ofNat data.length := by
    intro out
    obtain ⟨he, hl⟩ := hparts out
    rw [testHeader, h.header_version]
    cases h.isV11 with
    | true =>
      simp only [he, hl, hvalid, if_true, if_false, ne_eq, not_true_eq_false]
      exact ⟨_, rfl, he, hl⟩
    | false =>
      simp only [he, hl, hvalid, if_false, ne_eq, not_true_eq_false, Bool.false_eq_true]
      exact ⟨_, rfl, rfl, rfl⟩
  refine ⟨⟨hf, fun out => ?_⟩, fun out header htest' => ?_⟩
  · obtain ⟨header, hok, -⟩ := htest out
    exact ⟨header, hok⟩
  · obtain ⟨header', hok, he, hl⟩ := htest out
    obtain rfl := Except.ok.inj (hok.symm.trans htest')
    exact ⟨he ▸ HeaderEncoding.noConfusion, hl⟩

/-- Chunks and no length are accepted in a response of HTTP/1.1. -/
theorem Head.takes_chunked {h : Head} (hf : ∀ f ∈ h.fields, f.Fits) (hv11 : h.isV11 = true)
    {enc data : List UInt8} (valid : Chunked enc data)
    (hex : ∃ f ∈ h.fields, f.Is (ascii "TRANSFER-ENCODING"))
    (henc : ∀ f ∈ h.fields, f.Is (ascii "TRANSFER-ENCODING") → f.value.map toupper = ascii "CHUNKED")
    (hlen : ∀ f ∈ h.fields, ¬ f.Is (ascii "CONTENT-LENGTH")) :
    h.Fits ∧ h.Announces (.chunked enc data valid) := by
  have htest : ∀ out, testHeader (h.header out) = .ok (h.header out) ∧
      (h.header out).transferEncoding = .chunked := by
    intro out
    obtain ⟨he, hl⟩ := h.header_framing (n := 0) out henc (fun f hf hname => absurd hname (hlen f hf))
    rw [if_pos hex] at he
    rw [if_neg fun ⟨f, hf, hname⟩ => hlen f hf hname] at hl
    rw [testHeader, h.header_version, hv11]
    simp only [he, hl, if_true, ne_eq, not_true_eq_false, if_false]
    exact ⟨trivial, trivial⟩
  refine ⟨⟨hf, fun out => ⟨_, (htest out).1⟩⟩, fun out header htest' => ?_⟩
  obtain rfl := Except.ok.inj ((htest out).1.symm.trans htest')
  exact (htest out).2

end MiMic.Httpcl
