import MiMic.Http.BodyReads
import MiMic.Httpd.OneResponse

/-!
# Uploading a file

`upload_handler` reads the body of a request into a file, a buffer at a time. What the socket has
at each read, whether the file can be created and how much of each `fwrite` comes into it is given
from outside, so that the connection and the file may fail at every point.
-/
namespace MiMic.Httpd

open Http

/-- `SIZE_OF_FBUF`. -/
def sizeOfFbuf : Nat := 256

/-- What the handler meets: whether `fopen` succeeds, how many bytes the socket has at each read,
and how many bytes of each `fwrite` come into the file, at once or by the time it is closed. -/
structure UploadEnv where
  opens : Bool
  available : Nat → Nat
  stores : Nat → Nat

/-- The file, whether it is open, and the responses that were sent. -/
structure Upload where
  file : Option (List UInt8)
  isOpen : Bool
  responses : List UInt16
deriving DecidableEq

namespace Upload

def start : Upload := ⟨none, false, []⟩

def fopen (u : Upload) : Upload := { u with file := some [], isOpen := true }

def fwrite (u : Upload) (bytes : List UInt8) : Upload := { u with file := u.file.map (· ++ bytes) }

def fclose (u : Upload) : Upload := { u with isOpen := false }

/-- `NyLPC_cHttpdUtils_sendErrorResponse`, and the header that is sent for success. -/
def respond (u : Upload) (code : UInt16) : Upload := { u with responses := u.responses ++ [code] }

end Upload

/-- Read number `i`. -/
def UploadEnv.read (env : UploadEnv) (i : Nat) (p : BasicBodyParser) (s : List UInt8) : StreamCall :=
  streamCall p s ⟨env.available i, sizeOfFbuf⟩

/-- The `while` loop with what read number `i` has brought; it gives `false` for the jump to
`Error_FILE`, and `none` only when `fuel` rounds are not enough. What `fwrite` returns is not
looked at. -/
def uploadLoop (env : UploadEnv) :
    Nat → Nat → BasicBodyParser → List UInt8 → List UInt8 → Upload → Option (Bool × Upload)
  | _, _, _, _, [], u => some (true, u)
  | 0, _, _, _, _ :: _, _ => none
  | fuel + 1, i, p, s, c :: cs, u =>
      let u := u.fwrite ((c :: cs).take (env.stores i))
      match env.read (i + 1) p s with
      | .read buf p' n => uploadLoop env fuel (i + 1) p' (s.drop n) buf u
      | _ => some (false, u)

/-- `upload_handler`, with what it returns. A round takes at least a byte of the stream. -/
def uploadHandler (env : UploadEnv) (p : BasicBodyParser) (s : List UInt8) : Option (Upload × Bool) :=
  if !env.opens then some (Upload.start.respond 500, false)
  else
    match env.read 0 p s with
    | .read buf p' n =>
        (uploadLoop env s.length 0 p' (s.drop n) buf Upload.start.fopen).map fun (ok, u) =>
          if ok then (u.fclose.respond 200, true) else (u.fclose.respond 500, false)
    | _ => some (Upload.start.fopen.fclose.respond 200, true)

/-- What is owed to an upload: one response, which is 200 only when the file has the body, and a
file that is not left open. -/
structure Stores (b : HttpBody) (u : Upload) : Prop where
  answer : (u.responses = [200] ∧ u.file = some b.data) ∨ ∃ code, 400 ≤ code ∧ u.responses = [code]
  closed : u.isOpen = false

namespace UploadEnv

variable (env : UploadEnv) (b : HttpBody) (rest : List UInt8)

/-- The position of read number `i` in the body. -/
def pos (i : Nat) : Nat := b.readAt rest sizeOfFbuf env.available i

/-- The bytes that read number `i` finds. -/
def finds (i : Nat) : Nat := found b rest (env.pos b rest i) ⟨env.available i, sizeOfFbuf⟩

/-- The data on the way of read number `i`. -/
def piece (i : Nat) : List UInt8 :=
  (b.dataIn (env.pos b rest (i + 1))).drop (b.dataIn (env.pos b rest i)).length

/-- Read number `i` brings data. -/
def Brings (i : Nat) : Prop :=
  env.piece b rest i ≠ [] ∧ b.NoExtensionTo (env.pos b rest (i + 1))

/-- Read number `i` fails: before the end of the body the socket has nothing, or an extension
stands on the way. -/
def Breaks (i : Nat) : Prop :=
  ¬ (env.pos b rest i = b.enc.length ∧ 0 < env.pos b rest i) ∧
    (env.finds b rest i = 0 ∨ ¬ b.NoExtensionTo (env.pos b rest (i + 1)))

/-- The file cannot be created; or the first read that brings no data is a later one that fails;
or it stands behind all of the data, and every `fwrite` before it is complete. -/
def Truthful : Prop :=
  env.opens = false ∨
    ∀ i, (∀ j < i, env.Brings b rest j) → ¬ env.Brings b rest i →
      (0 < i ∧ env.Breaks b rest i) ∨
        (b.dataIn (env.pos b rest i) = b.data ∧
          ∀ j < i, (env.piece b rest j).length ≤ env.stores j)

variable {env b rest} {At : BasicBodyParser → Nat → Prop} {p : BasicBodyParser} {i : Nat}

theorem pos_le (i : Nat) : env.pos b rest i ≤ env.pos b rest (i + 1) :=
  HttpBody.le_reachFrom b _ _ _

theorem pos_le_length (i : Nat) : env.pos b rest i ≤ b.enc.length :=
  b.readAt_le rest _ _ i

theorem dataIn_succ (i : Nat) :
    b.dataIn (env.pos b rest (i + 1)) = b.dataIn (env.pos b rest i) ++ env.piece b rest i := by
  obtain ⟨more, hmore⟩ := b.dataIn_prefix (@pos_le env b rest i) (env.pos_le_length _)
  rw [piece, ← hmore, List.drop_left]

/-- A read that goes nowhere brings nothing. -/
theorem not_brings_of_stays (h : env.pos b rest (i + 1) = env.pos b rest i) :
    ¬ env.Brings b rest i := by
  intro hb
  refine hb.1 ?_
  rw [piece, h, List.drop_length]

/-- What read number `i` does at its position. -/
theorem read_cases (hP : Places b rest At) (h : At p (env.pos b rest i)) :
    (env.Brings b rest i ∧ ∃ p' n,
        env.read i p ((b.enc ++ rest).drop (env.pos b rest i)) = .read (env.piece b rest i) p' n ∧
          env.pos b rest i + n = env.pos b rest (i + 1) ∧ At p' (env.pos b rest (i + 1))) ∨
      (¬ env.Brings b rest i ∧ env.Breaks b rest i ∧
        (env.read i p ((b.enc ++ rest).drop (env.pos b rest i)) = .noData ∨
          env.read i p ((b.enc ++ rest).drop (env.pos b rest i)) = .error)) ∨
      (¬ env.Brings b rest i ∧ ¬ env.Breaks b rest i ∧ ∃ p' n,
        env.read i p ((b.enc ++ rest).drop (env.pos b rest i)) = .read [] p' n) := by
  by_cases hst : p.status = .eob
  · have hend := (hP.eob h).mp hst
    have hstay : env.pos b rest (i + 1) = env.pos b rest i :=
      HttpBody.reachFrom_self (.inr hend.1.ge)
    exact .inr (.inr ⟨not_brings_of_stays hstay, fun hb => hb.1 hend, p, 0, streamCall_eob _ _ hst⟩)
  have hopen := fun hend => hst ((hP.eob h).mpr hend)
  by_cases hf : env.finds b rest i = 0
  · have hstay : env.pos b rest (i + 1) = env.pos b rest i := HttpBody.reachFrom_self (.inl hf)
    exact .inr (.inl ⟨not_brings_of_stays hstay, ⟨hopen, .inl hf⟩, .inl (streamCall_noData hst hf)⟩)
  have hland : Lands b At (env.pos b rest i) (env.pos b rest (i + 1))
      (env.read i p ((b.enc ++ rest).drop (env.pos b rest i))) :=
    hP.lands h hst hf (show 0 < sizeOfFbuf by decide)
  cases hread : env.read i p ((b.enc ++ rest).drop (env.pos b rest i)) with
  | noData =>
    rw [hread] at hland
    exact hland.elim
  | error =>
    rw [hread] at hland
    exact .inr (.inl ⟨fun hb => hland hb.2, ⟨hopen, .inr hland⟩, .inr rfl⟩)
  | read buf p' n =>
    rw [hread] at hland
    obtain ⟨hn, hdata, hno, hat⟩ := hland
    have hpiece : env.piece b rest i = buf := by
      rw [piece, hdata, List.drop_left]
    by_cases hnil : buf = []
    · refine .inr (.inr ⟨fun hb => hb.1 (hpiece.trans hnil), fun hb => ?_, p', n, by rw [hnil]⟩)
      exact hb.2.elim hf fun hext => hext hno
    · exact .inl ⟨⟨hpiece ▸ hnil, hno⟩, p', n, by rw [hpiece], hn, hat hnil⟩

/-- Reads that bring data get on. -/
theorem le_pos {n : Nat} (h : ∀ j < n, env.Brings b rest j) : n ≤ env.pos b rest n := by
  induction n with
  | zero => exact Nat.zero_le _
  | succ n ih =>
    have hrec := ih fun j hj => h j (Nat.lt_succ_of_lt hj)
    refine Nat.succ_le_of_lt (lt_of_le_of_lt hrec (lt_of_le_of_ne (env.pos_le n) fun heq => ?_))
    exact not_brings_of_stays heq.symm (h n (Nat.lt_succ_self n))

/-- Some read is the first that brings no data. -/
theorem exists_last (env : UploadEnv) (b : HttpBody) (rest : List UInt8) :
    ∃ n ≤ b.enc.length, (∀ j < n, env.Brings b rest j) ∧ ¬ env.Brings b rest n := by
  classical
  have hsome : ∃ n, ¬ env.Brings b rest n := by
    by_contra hno
    have hall : ∀ j, env.Brings b rest j := fun j => by_contra fun hj => hno ⟨j, hj⟩
    have hpast := (le_pos (n := b.enc.length + 1) fun j _ => hall j).trans (env.pos_le_length _)
    exact absurd hpast (Nat.not_succ_le_self _)
  have hbefore : ∀ j < Nat.find hsome, env.Brings b rest j :=
    fun j hj => not_not.mp (Nat.find_min hsome hj)
  exact ⟨Nat.find hsome, (le_pos hbefore).trans (env.pos_le_length _), hbefore, Nat.find_spec hsome⟩

/-- What comes into the file of the data that `n` reads bring. -/
def stored (env : UploadEnv) (b : HttpBody) (rest : List UInt8) (n : Nat) : List UInt8 :=
  (List.range n).flatMap fun j => (env.piece b rest j).take (env.stores j)

theorem stored_succ (n : Nat) : env.stored b rest (n + 1) =
    env.stored b rest n ++ (env.piece b rest n).take (env.stores n) := by
  rw [stored, List.range_succ, List.flatMap_append, List.flatMap_singleton]
  rfl

/-- The loop goes on to the first read that brings no data, and ends as that read does. -/
theorem uploadLoop_eq (hP : Places b rest At) {n : Nat} (hbefore : ∀ j < n, env.Brings b rest j)
    (hlast : ¬ env.Brings b rest n) {u : Upload} (hi : i < n) {fuel : Nat} (hfuel : n - i ≤ fuel)
    (hat : At p (env.pos b rest (i + 1))) (hu : u.file = some (env.stored b rest i)) :
    ∃ ok, uploadLoop env fuel i p ((b.enc ++ rest).drop (env.pos b rest (i + 1)))
        (env.piece b rest i) u = some (ok, { u with file := some (env.stored b rest n) }) ∧
      (ok = false ↔ env.Breaks b rest n) := by
  induction fuel generalizing i p u with
  | zero => omega
  | succ fuel ih =>
    obtain ⟨c, cs, hpiece⟩ := List.exists_cons_of_ne_nil (hbefore i hi).1
    have hwrite : u.fwrite ((env.piece b rest i).take (env.stores i)) =
        { u with file := some (env.stored b rest (i + 1)) } := by
      rw [Upload.fwrite, hu, stored_succ]
      rfl
    rw [hpiece, uploadLoop, ← hpiece, hwrite]
    rcases read_cases hP hat with
      ⟨hb, p', k, hread, hk, hat'⟩ | ⟨hb, hbreak, hread⟩ | ⟨hb, hbreak, p', k, hread⟩
    · have hi' : i + 1 < n := by
        refine lt_of_le_of_ne hi fun heq => ?_
        rw [heq] at hb
        exact hlast hb
      obtain ⟨ok, hrun, hok⟩ := ih (u := { u with file := some (env.stored b rest (i + 1)) }) hi'
        (by omega) hat' rfl
      refine ⟨ok, ?_, hok⟩
      rw [hread]
      dsimp only
      rw [List.drop_drop, hk]
      exact hrun
    · obtain rfl : n = i + 1 := by
        by_contra hne
        exact hb (hbefore (i + 1) (by omega))
      refine ⟨false, ?_, iff_of_true rfl hbreak⟩
      rcases hread with hread | hread
      · rw [hread]
      · rw [hread]
    · obtain rfl : n = i + 1 := by
        by_contra hne
        exact hb (hbefore (i + 1) (by omega))
      refine ⟨true, ?_, iff_of_false Bool.noConfusion hbreak⟩
      rw [hread]
      dsimp only
      rw [uploadLoop]

/-- What `upload_handler` leaves when the first read without data is number `n`. -/
theorem uploadHandler_eq (hP : Places b rest At) {p₀ : BasicBodyParser} (hstart : At p₀ 0)
    (hopens : env.opens = true) {n : Nat} (hn : n ≤ b.enc.length)
    (hbefore : ∀ j < n, env.Brings b rest j) (hlast : ¬ env.Brings b rest n) :
    ∃ code ret, uploadHandler env p₀ (b.enc ++ rest) =
        some (⟨some (env.stored b rest n), false, [code]⟩, ret) ∧
      (code = 200 ∨ code = 500) ∧ (code = 500 ↔ 0 < n ∧ env.Breaks b rest n) := by
  unfold uploadHandler
  rw [hopens, if_neg (by decide)]
  have hat : At p₀ (env.pos b rest 0) := hstart
  rcases read_cases hP hat with
    ⟨hb, p', k, hread, hk, hat'⟩ | ⟨hb, -, hread⟩ | ⟨hb, -, p', k, hread⟩
  · have hpos : 0 < n := Nat.pos_of_ne_zero fun h0 => hlast (h0 ▸ hb)
    have hfuel : n - 0 ≤ (b.enc ++ rest).length := by
      rw [List.length_append]
      omega
    obtain ⟨ok, hrun, hok⟩ := uploadLoop_eq (u := Upload.start.fopen) hP hbefore hlast hpos hfuel
      hat' rfl
    rw [show (b.enc ++ rest).drop (env.pos b rest 0) = b.enc ++ rest from rfl] at hread
    have hdrop : (b.enc ++ rest).drop k = (b.enc ++ rest).drop (env.pos b rest 1) := by
      rw [← hk, show env.pos b rest 0 = 0 from rfl, Nat.zero_add]
    rw [hread]
    dsimp only
    rw [hdrop, hrun]
    cases ok with
    | true =>
      refine ⟨200, true, rfl, .inl rfl, iff_of_false (by decide) fun hbr => ?_⟩
      exact Bool.noConfusion (hok.mpr hbr.2)
    | false => exact ⟨500, false, rfl, .inr rfl, iff_of_true rfl ⟨hpos, hok.mp rfl⟩⟩
  · obtain rfl : n = 0 := by
      by_contra hne
      exact hb (hbefore 0 (Nat.pos_of_ne_zero hne))
    refine ⟨200, true, ?_, .inl rfl, iff_of_false (by decide) fun hbr => lt_irrefl 0 hbr.1⟩
    rcases hread with hread | hread
    · rw [show (b.enc ++ rest).drop (env.pos b rest 0) = b.enc ++ rest from rfl] at hread
      rw [hread]
      rfl
    · rw [show (b.enc ++ rest).drop (env.pos b rest 0) = b.enc ++ rest from rfl] at hread
      rw [hread]
      rfl
  · obtain rfl : n = 0 := by
      by_contra hne
      exact hb (hbefore 0 (Nat.pos_of_ne_zero hne))
    refine ⟨200, true, ?_, .inl rfl, iff_of_false (by decide) fun hbr => lt_irrefl 0 hbr.1⟩
    rw [show (b.enc ++ rest).drop (env.pos b rest 0) = b.enc ++ rest from rfl] at hread
    rw [hread]
    dsimp only
    rw [uploadLoop]
    rfl

theorem stored_le (n : Nat) : (env.stored b rest n).length ≤ (b.dataIn (env.pos b rest n)).length := by
  induction n with
  | zero => exact Nat.zero_le _
  | succ n ih =>
    have htake := List.length_take_le' (env.stores n) (env.piece b rest n)
    rw [stored_succ, dataIn_succ, List.length_append, List.length_append]
    omega

/-- No byte is missing in the file exactly when every write was complete. -/
theorem stored_eq_iff (n : Nat) : env.stored b rest n = b.dataIn (env.pos b rest n) ↔
    ∀ j < n, (env.piece b rest j).length ≤ env.stores j := by
  induction n with
  | zero => exact iff_of_true b.dataIn_zero.symm fun j hj => absurd hj (Nat.not_lt_zero j)
  | succ n ih =>
    have hle := @stored_le env b rest n
    rw [stored_succ, dataIn_succ]
    constructor
    · intro heq j hj
      have hlen := congrArg List.length heq
      rw [List.length_append, List.length_append, List.length_take] at hlen
      rcases Nat.lt_or_eq_of_le (Nat.le_of_lt_succ hj) with hlt | rfl
      · have hsame : (env.stored b rest n).length = (b.dataIn (env.pos b rest n)).length := by omega
        exact ih.mp (List.append_inj_left heq hsame) j hlt
      · omega
    · intro hall
      rw [ih.mpr fun j hj => hall j (Nat.lt_succ_of_lt hj),
        List.take_of_length_le (hall n (Nat.lt_succ_self n))]

/-- The whole body is in the file. -/
theorem stored_eq_data_iff (n : Nat) : env.stored b rest n = b.data ↔
    b.dataIn (env.pos b rest n) = b.data ∧ ∀ j < n, (env.piece b rest j).length ≤ env.stores j := by
  have hpre := b.dataIn_prefix (@pos_le_length env b rest n) le_rfl
  rw [b.dataIn_length] at hpre
  rw [← stored_eq_iff]
  constructor
  · intro heq
    have hlen := congrArg List.length heq
    have hle := @stored_le env b rest n
    have hdata := hpre.eq_of_length (le_antisymm hpre.length_le (by omega))
    exact ⟨hdata, heq.trans hdata.symm⟩
  · exact fun h => h.2.trans h.1

/-- Only one read is the first without data. -/
theorem truthful_iff {n : Nat} (hopens : env.opens = true) (hbefore : ∀ j < n, env.Brings b rest j)
    (hlast : ¬ env.Brings b rest n) :
    env.Truthful b rest ↔ (0 < n ∧ env.Breaks b rest n) ∨ env.stored b rest n = b.data := by
  rw [stored_eq_data_iff, Truthful, or_iff_right (by rw [hopens]; exact Bool.noConfusion)]
  constructor
  · exact fun h => h n hbefore hlast
  · intro h i hi hno
    rcases Nat.lt_trichotomy i n with hlt | rfl | hgt
    · exact absurd (hbefore i hlt) hno
    · exact h
    · exact absurd (hi n hgt) hlast

end UploadEnv

namespace Responder

/-- A response of the handler. -/
def answerUpload (c : Responder) (code : UInt16) : Option Responder :=
  if code = 200 then (c.sendResponseHeader2 200 htmlType (some 0) none).map Prod.fst
  else c.sendErrorResponse code

end Responder

/-- The upload case of `NyLPC_cModFileIoBaseClass_execute`; `bodyRead` is what `parseFinish`
gives. Another method than POST gets no response here. -/
def ModFileIo.executeUpload (c : Responder) (h : BasicHeader) (run : Upload × Bool)
    (bodyRead : Bool) : Option (Responder × Bool) :=
  let c := c.setReqStatusParsed.followHeader h
  if c.method = .post then
    (run.1.responses.foldlM Responder.answerUpload c.send100Continue.1).map fun c =>
      (if run.2 then c else c.setConnectionMode .close, !bodyRead)
  else some (c, false)

section

open Responder

variable {isClose : Bool} {m : HttpMethod}

theorem opens_answerUpload (code : UInt16) :
    Opens isClose m [] fun c => c.answerUpload code := by
  unfold answerUpload
  by_cases hok : code = 200
  · simp only [if_pos hok]
    have hsuits : Suits m (encodingOf (some 0)) [] (framingOf (some 0)) :=
      ⟨rfl, (ite_self (0 : Nat)).symm⟩
    have hhead : Opens isClose m [] fun c =>
        (c.sendResponseHeader2 200 htmlType (some 0) none).bind fun r => some r.1 := by
      refine opens_header hsuits plainText_htmlType (.inl rfl) ?_
      intro c sent k _ hbody
      exact ⟨c, rfl, by simpa using hbody⟩
    refine hhead.congr fun c _ => ?_
    cases c.sendResponseHeader2 200 htmlType (some 0) none with
    | none => rfl
    | some r => rfl
  · simp only [if_neg hok]
    exact opens_sendErrorResponse code

/-- What comes behind an answer sends nothing. -/
theorem Responder.Opens.after {interim : List UInt8} {f : Responder → Option Responder}
    {g : Responder → Responder} (hf : Opens isClose m interim f)
    (hg : ∀ c, (g c).stream = c.stream ∧ (g c).connection.resStatus = c.connection.resStatus ∧
      (g c).isChunked = c.isChunked ∧ (g c).isError = c.isError) :
    Opens isClose m interim fun c => (f c).map g := by
  obtain ⟨n, hn⟩ := hf
  refine ⟨n, fun c sent data k hclose hm hready => ?_⟩
  obtain ⟨c', hrun, h, we, body, hbody, hsuits⟩ := hn c sent data k hclose hm hready
  obtain ⟨hstream, hstatus, hchunked, herror⟩ := hg c'
  refine ⟨g c', congrArg (Option.map g) hrun, h, we, body, ⟨?_, ?_, ?_, ?_⟩, hsuits⟩
  · exact hstatus.trans hbody.status
  · exact hchunked.trans hbody.chunked
  · exact herror.trans hbody.noError
  · exact hstream ▸ hbody.pending

/-- An upload with one response is answered with just that, behind an interim one. -/
theorem opens_executeUpload (h : BasicHeader) {run : Upload × Bool} {code : UInt16}
    (bodyRead : Bool) (hone : run.1.responses = [code]) : Opens isClose .post continueText
      fun c => (ModFileIo.executeUpload c h run bodyRead).map Prod.fst := by
  have hanswer : ∀ isClose, Opens isClose .post [] fun c =>
      (c.answerUpload code).map fun c => if run.2 then c else c.setConnectionMode .close := by
    refine fun isClose => (opens_answerUpload code).after fun c => ?_
    split
    · exact ⟨rfl, rfl, rfl, rfl⟩
    · exact ⟨rfl, rfl, rfl, rfl⟩
  refine (Opens.follow h fun isClose => (hanswer isClose).continued).parsed.congr fun c hm => ?_
  have hpost : (c.setReqStatusParsed.followHeader h).method = .post :=
    (followHeader_facts c.setReqStatusParsed h).1.trans hm
  simp only [ModFileIo.executeUpload, if_pos hpost, hone, List.foldlM_cons, List.foldlM_nil,
    Option.bind_eq_bind, Option.pure_def, Option.map_map, Option.bind_fun_some]
  rfl

end

/-- `upload_handler` comes to its end for every body, connection and file, and what it owes is
kept exactly on the uploads that are truthful. -/
theorem upload_stores_iff (env : UploadEnv) (b : HttpBody) (p₀ : BasicBodyParser)
    (rest : List UInt8) : ∃ u ret, uploadHandler env (b.init p₀) (b.enc ++ rest) = some (u, ret) ∧
      (Stores b u ↔ env.Truthful b rest) := by
  cases hopens : env.opens with
  | false =>
    refine ⟨Upload.start.respond 500, false, ?_, iff_of_true ⟨?_, rfl⟩ (.inl hopens)⟩
    · rw [uploadHandler, hopens]
      rfl
    · exact .inr ⟨500, by decide, rfl⟩
  | true =>
    obtain ⟨At, hP, hstart⟩ := exists_places b p₀ rest
    obtain ⟨n, hn, hbefore, hlast⟩ := UploadEnv.exists_last env b rest
    obtain ⟨code, ret, hrun, hcodes, hcode⟩ :=
      UploadEnv.uploadHandler_eq hP hstart hopens hn hbefore hlast
    refine ⟨_, ret, hrun, ?_⟩
    rw [UploadEnv.truthful_iff hopens hbefore hlast, ← hcode]
    constructor
    · intro hs
      rcases hs.answer with ⟨-, hfile⟩ | ⟨code', hge, hsent⟩
      · exact .inr (Option.some.inj hfile)
      · obtain rfl : code = code' := List.singleton_inj.mp hsent
        refine .inl (hcodes.resolve_left ?_)
        rintro rfl
        exact absurd hge (by decide)
    · rintro (rfl | hfile)
      · exact ⟨.inr ⟨500, by decide, rfl⟩, rfl⟩
      · refine ⟨?_, rfl⟩
        rcases hcodes with rfl | rfl
        · exact .inl ⟨rfl, congrArg some hfile⟩
        · exact .inr ⟨500, by decide, rfl⟩

/-- Three bytes. -/
def abcBody : HttpBody := .plain (ascii "abc") (by decide)

/-- The connection fails before the first read, and the empty file is reported as stored; so is a
file that has taken one byte of three. -/
theorem not_upload_stores :
    (¬ ∀ env u ret, uploadHandler env (abcBody.init newParser) abcBody.enc = some (u, ret) →
      (∀ i, env.stores i = 256) → Stores abcBody u) ∧
    ¬ ∀ env u ret, uploadHandler env (abcBody.init newParser) abcBody.enc = some (u, ret) →
      (∀ i, env.available i = 3) → Stores abcBody u := by
  constructor
  · intro h
    have hs := h ⟨true, fun _ => 0, fun _ => 256⟩ ⟨some [], false, [200]⟩ true (by decide) fun _ => rfl
    obtain ⟨-, hfile⟩ | ⟨code, hge, hsent⟩ := hs.answer
    · exact absurd hfile (by decide)
    · obtain rfl := List.singleton_inj.mp hsent
      exact absurd hge (by decide)
  · intro h
    have hs := h ⟨true, fun _ => 3, fun _ => 1⟩ ⟨some (ascii "a"), false, [200]⟩ true (by decide)
      fun _ => rfl
    obtain ⟨-, hfile⟩ | ⟨code, hge, hsent⟩ := hs.answer
    · exact absurd hfile (by decide)
    · obtain rfl := List.singleton_inj.mp hsent
      exact absurd hge (by decide)

end MiMic.Httpd
