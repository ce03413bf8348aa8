import MiMic.Fat.FileSeek
import MiMic.Lib.Simulation

/-!
# The files of a volume

To its user an open file is a row of bytes with a position in it. The open files of one volume share
the window, the table and the free clusters; each of them answers as if it were alone.
-/
namespace MiMic.Fat

open Verif Verif.Prog

/-- What is asked of an open file. -/
inductive Op
  | read (btr : Nat)
  | write (b : List UInt8)
  | seek (ofs : Nat)
  | truncate
deriving DecidableEq, Repr

inductive Answer
  | bytes (b : List UInt8)
  | count (n : Nat)
  | done
  | refused (e : FResult)
deriving DecidableEq, Repr

/-- A row of bytes, a position in it, and what it may be used for. -/
structure Doc where
  data : List UInt8
  pos : Nat
  read : Bool
  write : Bool

/-- The bytes take the place of the ones behind the position. -/
def Doc.put (d : Doc) (b : List UInt8) : Doc :=
  { d with data := d.data.take d.pos ++ b ++ d.data.drop (d.pos + b.length), pos := d.pos + b.length }

/-- What a file may answer, on a volume that is `full` then. A write stops where there is no room, or does not
start when the file would reach 4 GB; a seek behind the end brings bytes nobody wrote. -/
inductive Doc.Step (full : Prop) : Doc → Op → Answer → Doc → Prop
  | read {d : Doc} {btr : Nat} : d.read = true → Step full d (.read btr) (.bytes ((d.data.drop d.pos).take btr))
      { d with pos := d.pos + min btr (d.data.length - d.pos) }
  | write {d : Doc} {b : List UInt8} {n : Nat} : d.write = true → n ≤ b.length →
      (d.data.length + b.length < 2 ^ 32 → n < b.length → full) → (2 ^ 32 ≤ d.data.length + b.length → n = 0) →
      Step full d (.write b) (.count n) (d.put (b.take n))
  | seek {d : Doc} {ofs : Nat} : ofs ≤ d.data.length → Step full d (.seek ofs) .done { d with pos := ofs }
  | seekEnd {d : Doc} {ofs : Nat} : d.write = false → d.data.length < ofs →
      Step full d (.seek ofs) .done { d with pos := d.data.length }
  | seekGrow {d : Doc} {ofs : Nat} {b : List UInt8} : d.write = true → d.data.length < ofs →
      d.data.length + b.length ≤ ofs → (d.data.length + b.length < ofs → full) →
      Step full d (.seek ofs) .done { d with data := d.data ++ b, pos := d.data.length + b.length }
  | truncate {d : Doc} : d.write = true → Step full d .truncate .done { d with data := d.data.take d.pos }
  | unreadable {d : Doc} {btr : Nat} : d.read = false → Step full d (.read btr) (.refused .denied) d
  | unwritable {d : Doc} {op : Op} : d.write = false → (op = .truncate ∨ ∃ b, op = .write b) →
      Step full d op (.refused .denied) d

/-- A call for a file; counts and positions are 32-bit words. -/
def perform (v : Volume) : Op → FileM Answer
  | .read btr => do
    let r ← fRead v (fun _ => 0) btr
    return .bytes ((List.range r.2).map r.1)
  | .write b => .count <$> fWrite v (fun i => b.getD i 0) b.length
  | .seek ofs => do
    fLseek v ofs
    return .done
  | .truncate => do
    fTruncate v
    return .done

def Op.Fits : Op → Prop
  | .read btr => btr < 2 ^ 32
  | .write b => b.length < 2 ^ 32
  | .seek ofs => ofs < 2 ^ 32
  | .truncate => True

def answer : Except FResult Answer → Answer
  | .ok a => a
  | .error e => .refused e

/-- A call for a file, what came of it, and whether there is a free cluster left then. -/
structure Call (ι : Type) where
  file : ι
  op : Op
  answer : Answer
  full : Bool
deriving DecidableEq, Repr

/-- The volume and its open files. -/
structure Mounted (ι : Type) where
  fs : Fs
  files : ι → Fil

/-- One call for one of the files. -/
def Mounted.call {ι : Type} [DecidableEq ι] (v : Volume) (m : Mounted ι) (i : ι) (op : Op) : Call ι × Mounted ι :=
  let r := exec (perform v op) (m.fs, m.files i)
  (⟨i, op, answer r.1, v.freeSet r.2.1.view = ∅⟩, ⟨r.2.1, Function.update m.files i r.2.2⟩)

/-- Calls for the files, one after the other. -/
def Mounted.calls {ι : Type} [DecidableEq ι] (v : Volume) : Mounted ι → List (ι × Op) → List (Call ι) × Mounted ι
  | m, [] => ([], m)
  | m, (i, op) :: ops =>
    let r := m.call v i op
    let t := calls v r.2 ops
    (r.1 :: t.1, t.2)

inductive Mounted.Step {ι : Type} [DecidableEq ι] (v : Volume) : Mounted ι → Call ι → Mounted ι → Prop
  | call {m : Mounted ι} {i : ι} {op : Op} : op.Fits → Step v m (m.call v i op).1 (m.call v i op).2

/-- The first `n` bytes of the clusters. -/
def contents (v : Volume) (view : Nat → Bytes) (cl : List Nat) (n : Nat) : List UInt8 :=
  (List.range n).map (byteAt v view cl)

/-- An open file whose clusters hold the row of bytes. -/
structure Opened (v : Volume) (fs : Fs) (cl : List Nat) (fp : Fil) (d : Doc) : Prop where
  placed : Placed v fs.view cl fp
  room : fp.fsize ≤ cl.length * (v.csize * 512)
  within : fp.fptr ≤ fp.fsize
  size_lt : fp.fsize < 2 ^ 32
  fine : fp.error = false
  data : d.data = contents v fs.view cl fp.fsize
  pos : d.pos = fp.fptr
  read : d.read = fp.read
  write : d.write = fp.write

variable {v : Volume} {fs fs' : Fs} {fp : Fil} {cl cl' ol : List Nat} {d : Doc}

@[simp] theorem length_contents {view : Nat → Bytes} {n : Nat} : (contents v view cl n).length = n := by
  simp [contents]

theorem contents_getElem {view : Nat → Bytes} {n i : Nat} (hi : i < (contents v view cl n).length) :
    (contents v view cl n)[i] = byteAt v view cl i := by
  simp [contents]

theorem Opened.length (h : Opened v fs cl fp d) : d.data.length = fp.fsize := by
  rw [h.data, length_contents]

/-- What a call for one file changes does not reach the others. -/
theorem Rewrites.others (h : Rewrites v cl cl' fs fs') {ofp : Fil} {od : Doc} (ho : Opened v fs ol ofp od)
    (hdisj : cl.Disjoint ol) : Opened v fs' ol ofp od ∧ cl'.Disjoint ol := by
  have hchain := ho.placed.chain
  have hdisj' : cl'.Disjoint ol := by
    intro c hc hco
    rcases h.fresh c hc with hin | hfree
    · exact hdisj hin hco
    · exact hchain.entry_ne_zero hco hfree
  have hchain' : FileChain v fs'.view ol := hchain.congr fun c hc =>
    h.entries c (hchain.cluster c hc) (fun hin => hdisj hin hc) fun hin => hdisj' hin hc
  have hbyte : ∀ i, i < ofp.fsize → byteAt v fs'.view ol i = byteAt v fs.view ol i := by
    intro i hi
    have hk := sector_lt (Nat.lt_of_lt_of_le hi ho.room)
    obtain ⟨hlo, hmem⟩ := hchain.of_sector hk
    exact congrFun (h.other _ (hchain.primary hk) (Nat.le_trans v.le_database hlo) (Or.inr fun hin => hdisj' hin hmem)) _
  have hp := ho.placed
  refine ⟨⟨⟨hchain', hp.start, hp.inside, hp.current, hp.sector⟩, ho.room, ho.within, ho.size_lt, ho.fine, ?_,
    ho.pos, ho.read, ho.write⟩, hdisj'⟩
  rw [ho.data]
  exact List.map_congr_left fun i hi => (hbyte i (List.mem_range.mp hi)).symm

/-- The file answers the call as a row of bytes may, and nothing else of the volume has changed. -/
def Served (v : Volume) (cl : List Nat) (fs : Fs) (d : Doc) (op : Op) (a : Answer) (s : Fs × Fil) : Prop :=
  ∃ cl' d', Rewrites v cl cl' fs s.1 ∧ Opened v s.1 cl' s.2 d' ∧ Doc.Step (v.Full s.1.view) d op a d'

theorem Served.refused {op : Op} (h : fs.Good v) (ho : Opened v fs cl fp d)
    (hstep : Doc.Step (v.Full fs.view) d op (.refused .denied) d) :
    Served v cl fs d op (.refused .denied) (fs, fp) :=
  ⟨cl, d, .of_still h ho.placed.chain (Still.refl h.ok), ho, hstep⟩

theorem Opened.usable (h : Opened v fs cl fp d) : ¬fp.error = true := h.fine ▸ Bool.false_ne_true

theorem contents_still {n : Nat} (h : FileChain v fs.view cl) (hn : n ≤ cl.length * (v.csize * 512))
    (hs : Still v fs fs') : contents v fs'.view cl n = contents v fs.view cl n :=
  List.map_congr_left fun _ hi => h.byteAt_still hs (Nat.lt_of_lt_of_le (List.mem_range.mp hi) hn)

theorem read_served {btr : Nat} (h : fs.Good v) (ho : Opened v fs cl fp d) :
    wp (perform v (.read btr)) (Served v cl fs d (.read btr)) (fun e => Served v cl fs d (.read btr) (.refused e))
      (fs, fp) := by
  rw [perform, wp_bind]
  cases hread : fp.read with
  | false =>
    rw [fRead, wp_bind, wp_fil, if_neg ho.usable, if_pos hread, wp_throw]
    exact .refused h ho (.unreadable (ho.read.trans hread))
  | true =>
    refine (fRead_spec h.ok h.healthy ho.placed ho.room ho.within ho.size_lt ho.fine hread).mono (fun r s hr => ?_)
      fun _ _ => False.elim
    obtain ⟨hn, hgot, hstill, hplaced, c, k, hs⟩ := hr
    obtain ⟨fs1, fp1⟩ := s
    have hs' : fp1 = { fp with fptr := fp.fptr + r.2, clust := c, dsect := k } := hs
    subst hs'
    have hlen := ho.length
    have hpos := ho.pos
    have hwithin := ho.within
    rw [wp_pure]
    have hbytes : (List.range r.2).map r.1 = (d.data.drop d.pos).take btr := by
      refine List.ext_getElem ?_ fun i hi hi' => ?_
      · rw [List.length_map, List.length_range, List.length_take, List.length_drop, hlen, hpos, hn]
      · rw [List.length_map, List.length_range] at hi
        have hbyte := hgot i
        rw [if_pos ⟨Nat.zero_le i, by omega⟩, Nat.sub_zero] at hbyte
        have hdata : ∀ j (hj : j < d.data.length), d.data[j] = byteAt v fs.view cl j := by
          rw [ho.data]
          exact fun j hj => contents_getElem hj
        rw [List.getElem_map, List.getElem_range, hbyte, List.getElem_take, List.getElem_drop, hdata, hpos]
    rw [hbytes]
    refine ⟨cl, { d with pos := d.pos + min btr (d.data.length - d.pos) }, .of_still h ho.placed.chain hstill, ?_,
      .read (ho.read.trans hread)⟩
    refine ⟨hplaced.still hstill, ho.room, ?_, ho.size_lt, ho.fine, ?_, ?_, ho.read, ho.write⟩
    · change fp.fptr + r.2 ≤ fp.fsize
      omega
    · rw [contents_still ho.placed.chain ho.room hstill]
      exact ho.data
    · change d.pos + min btr (d.data.length - d.pos) = fp.fptr + r.2
      rw [hlen, hpos, hn]

theorem contents_getElem? {view : Nat → Bytes} {n i : Nat} :
    (contents v view cl n)[i]? = if i < n then some (byteAt v view cl i) else none := by
  by_cases hi : i < n
  · rw [if_pos hi, contents, List.getElem?_map, List.getElem?_range hi]
    rfl
  · rw [if_neg hi, List.getElem?_eq_none (by rw [length_contents]; omega)]

theorem contents_take {view : Nat → Bytes} {n m : Nat} :
    (contents v view cl n).take m = contents v view cl (min m n) := by
  rw [contents, ← List.map_take, List.take_range, contents]

/-- The bytes around the ones that were put stay. -/
theorem Doc.put_getElem? {b : List UInt8} {i : Nat} (hpos : d.pos ≤ d.data.length) : (d.put b).data[i]? =
    if i < d.pos then d.data[i]? else if i < d.pos + b.length then b[i - d.pos]? else d.data[i]? := by
  have htake : (d.data.take d.pos).length = d.pos := by rw [List.length_take, Nat.min_eq_left hpos]
  rw [Doc.put, List.append_assoc]
  by_cases hlo : i < d.pos
  · rw [if_pos hlo, List.getElem?_append_left (by omega), List.getElem?_take_of_lt hlo]
  · rw [if_neg hlo, List.getElem?_append_right (by omega), htake]
    by_cases hhi : i < d.pos + b.length
    · rw [if_pos hhi, List.getElem?_append_left (by omega)]
    · have hsum : d.pos + b.length + (i - d.pos - b.length) = i := by omega
      rw [if_neg hhi, List.getElem?_append_right (by omega), List.getElem?_drop, hsum]

theorem write_served {b : List UInt8} (h : fs.Good v) (ho : Opened v fs cl fp d) (hfits : b.length < 2 ^ 32) :
    wp (perform v (.write b)) (Served v cl fs d (.write b)) (fun e => Served v cl fs d (.write b) (.refused e))
      (fs, fp) := by
  rw [perform, wp_map]
  cases hwrite : fp.write with
  | false =>
    rw [fWrite, wp_bind, wp_fil, if_neg ho.usable, if_pos hwrite, wp_throw]
    exact .refused h ho (.unwritable (ho.write.trans hwrite) (Or.inr ⟨b, rfl⟩))
  | true =>
    refine (fWrite_spec h ho.placed ho.room ho.size_lt hfits ho.fine hwrite).mono (fun n s hr => ?_)
      fun _ _ => False.elim
    obtain ⟨hle, hfull, cl', hw⟩ := hr
    obtain ⟨c, k, hs⟩ := hw.fields
    obtain ⟨fs1, fp1⟩ := s
    have hs' : fp1 = { fp with
        fptr := fp.fptr + n, fsize := max fp.fsize (fp.fptr + n), written := true, sclust := cl'.headD 0, clust := c, dsect := k } := hs
    subst hs'
    have hlen := ho.length
    have hpos := ho.pos
    have hwithin := ho.within
    have hn : n ≤ b.length := by
      split at hle <;> omega
    have htake : (b.take n).length = n := by rw [List.length_take, Nat.min_eq_left hn]
    have hdata : (d.put (b.take n)).data = contents v fs1.view cl' (max fp.fsize (fp.fptr + n)) := by
      refine List.ext_getElem? fun i => ?_
      rw [Doc.put_getElem? (by omega), htake, hpos, ho.data, contents_getElem?, contents_getElem?]
      by_cases hlo : i < fp.fptr
      · rw [if_pos hlo, if_pos (by omega), if_pos (by omega), hw.kept i (Or.inl hlo)]
      · rw [if_neg hlo]
        by_cases hhi : i < fp.fptr + n
        · obtain ⟨j, rfl⟩ := Nat.exists_eq_add_of_le (Nat.not_lt.mp hlo)
          have hj : j < n := by omega
          have hput := hw.put j hj
          rw [if_pos hhi, if_pos (by omega), hput, Nat.add_sub_cancel_left, List.getElem?_take_of_lt hj,
            List.getD_eq_getElem?_getD, List.getElem?_eq_getElem (by omega)]
          rfl
        · rw [if_neg hhi]
          by_cases hin : i < fp.fsize
          · rw [if_pos hin, if_pos (by omega), hw.kept i (Or.inr ⟨by omega, hin⟩)]
          · rw [if_neg hin, if_neg (by omega)]
    refine ⟨cl', d.put (b.take n), hw.grown, ?_, .write (ho.write.trans hwrite) hn ?_ ?_⟩
    · refine ⟨hw.placed, ?_, ?_, ?_, ho.fine, hdata, ?_, ho.read, ho.write⟩
      · have hlong := Nat.mul_le_mul_right (v.csize * 512) hw.longer.length_le
        have hin := hw.placed.inside
        have hroom := ho.room
        change fp.fptr + n ≤ _ at hin
        change max fp.fsize (fp.fptr + n) ≤ _
        omega
      · change fp.fptr + n ≤ max fp.fsize (fp.fptr + n)
        omega
      · have hsize := ho.size_lt
        change max fp.fsize (fp.fptr + n) < 2 ^ 32
        split at hle <;> omega
      · change d.pos + (b.take n).length = fp.fptr + n
        rw [htake, hpos]
    · intro hsize hless
      rw [hlen] at hsize
      rw [if_pos hsize] at hfull
      exact hfull hless
    · intro hsize
      rw [hlen] at hsize
      rw [if_neg (by omega)] at hle
      omega

theorem truncate_served (h : fs.Good v) (ho : Opened v fs cl fp d) :
    wp (perform v .truncate) (Served v cl fs d .truncate) (fun e => Served v cl fs d .truncate (.refused e))
      (fs, fp) := by
  rw [perform, wp_bind]
  cases hwrite : fp.write with
  | false =>
    rw [fTruncate, wp_bind, wp_fil, if_neg ho.usable, if_pos hwrite, wp_throw]
    exact .refused h ho (.unwritable (ho.write.trans hwrite) (Or.inl rfl))
  | true =>
    refine (fTruncate_spec h ho.placed ho.room ho.fine hwrite).mono (fun _ s hr => ?_) fun _ _ => False.elim
    obtain ⟨keep, ht⟩ := hr
    obtain ⟨w, hs⟩ := ht.fields
    obtain ⟨fs1, fp1⟩ := s
    have hs' : fp1 = { fp with fsize := min fp.fsize fp.fptr, sclust := keep.headD 0, written := w } := hs
    subst hs'
    have hwithin := ho.within
    have hin : fp.fptr ≤ keep.length * (v.csize * 512) := ht.placed.inside
    have hmin : min fp.fsize fp.fptr = fp.fptr := Nat.min_eq_right hwithin
    rw [wp_pure]
    refine ⟨keep, { d with data := d.data.take d.pos }, ht.grown, ?_, .truncate (ho.write.trans hwrite)⟩
    refine ⟨ht.placed, ?_, ?_, ?_, ho.fine, ?_, ho.pos, ho.read, ho.write⟩
    · change min fp.fsize fp.fptr ≤ _
      omega
    · change fp.fptr ≤ min fp.fsize fp.fptr
      omega
    · have hsize := ho.size_lt
      change min fp.fsize fp.fptr < 2 ^ 32
      omega
    · change d.data.take d.pos = contents v fs1.view keep (min fp.fsize fp.fptr)
      rw [ho.data, contents_take, hmin, ho.pos, Nat.min_eq_left hwithin]
      refine List.map_congr_left fun i hi => ?_
      obtain ⟨hlt, hsect⟩ := prefix_bytes (v := v) ht.shorter (Nat.lt_of_lt_of_le (List.mem_range.mp hi) hin)
      have hprimary := ho.placed.chain.primary (sector_lt hlt)
      rw [byteAt, byteAt, ← hsect, ht.same _ hprimary (Nat.le_trans v.le_database database_le_sectorAt)]

theorem seek_served {ofs : Nat} (h : fs.Good v) (ho : Opened v fs cl fp d) (hfits : ofs < 2 ^ 32) :
    wp (perform v (.seek ofs)) (Served v cl fs d (.seek ofs)) (fun e => Served v cl fs d (.seek ofs) (.refused e))
      (fs, fp) := by
  rw [perform, wp_bind]
  refine (fLseek_spec h ho.placed ho.room ho.within ho.size_lt ho.fine).mono (fun _ s hr => ?_) fun _ _ => False.elim
  obtain ⟨cl', pos, hreached, hm⟩ := hr
  obtain ⟨c, k, w, hs⟩ := hm.fields
  obtain ⟨fs1, fp1⟩ := s
  have hs' : fp1 = { fp with
      fptr := pos, fsize := max fp.fsize pos, sclust := cl'.headD 0, clust := c, dsect := k, written := w } := hs
  subst hs'
  have hlen := ho.length
  have hwithin := ho.within
  have hroom := ho.room
  have hsize := ho.size_lt
  have hin : pos ≤ cl'.length * (v.csize * 512) := hm.placed.inside
  have hlong := Nat.mul_le_mul_right (v.csize * 512) hm.grows.longer.length_le
  have hkept : ∀ i, i < fp.fsize → byteAt v fs1.view cl' i = byteAt v fs.view cl i := by
    intro i hi
    obtain ⟨hlt, hsect⟩ := prefix_bytes (v := v) hm.grows.longer (Nat.lt_of_lt_of_le hi hroom)
    have hprimary := hm.grows.grown.chain.primary (sector_lt hlt)
    rw [byteAt, byteAt, hm.grows.same _ hprimary (Nat.le_trans v.le_database database_le_sectorAt), hsect]
  have hle : pos ≤ ofs := by
    rcases hreached with hreached | hreached
    · split at hreached <;> omega
    · omega
  have hopened : ∀ data, data = contents v fs1.view cl' (max fp.fsize pos) → Opened v fs1 cl' { fp with
      fptr := pos, fsize := max fp.fsize pos, sclust := cl'.headD 0, clust := c, dsect := k, written := w }
      { d with data := data, pos := pos } := by
    intro data hdata
    refine ⟨hm.placed, ?_, ?_, ?_, ho.fine, hdata, rfl, ho.read, ho.write⟩
    · change max fp.fsize pos ≤ _
      omega
    · change pos ≤ max fp.fsize pos
      omega
    · change max fp.fsize pos < 2 ^ 32
      omega
  have hold : (contents v fs1.view cl' (max fp.fsize pos)).take fp.fsize = d.data := by
    rw [contents_take, Nat.min_eq_left (Nat.le_max_left ..), ho.data]
    exact List.map_congr_left fun i hi => hkept i (List.mem_range.mp hi)
  -- behind the end there are bytes that nobody wrote
  obtain ⟨extra, hextra, hcount⟩ : ∃ extra, contents v fs1.view cl' (max fp.fsize pos) = d.data ++ extra ∧
      extra.length = pos - fp.fsize := by
    refine ⟨(contents v fs1.view cl' (max fp.fsize pos)).drop fp.fsize, ?_, ?_⟩
    · rw [← hold, List.take_append_drop]
    · rw [List.length_drop, length_contents]
      omega
  have hserved := hopened _ hextra.symm
  have hgrow : d.write = true → fp.fsize < ofs → fp.fsize ≤ pos → (pos < ofs → v.Full fs1.view) →
      Doc.Step (v.Full fs1.view) d (.seek ofs) .done { d with data := d.data ++ extra, pos := pos } := by
    intro hw hlt hge hfull
    have hsum : d.data.length + extra.length = pos := by omega
    have hstep : Doc.Step (v.Full fs1.view) d (.seek ofs) .done
        { d with data := d.data ++ extra, pos := d.data.length + extra.length } :=
      .seekGrow hw (hlen.symm ▸ hlt) (by omega) fun hshort => hfull (by omega)
    rwa [hsum] at hstep
  rw [wp_pure]
  refine ⟨cl', { d with data := d.data ++ extra, pos := pos }, hm.grows.grown, hserved, ?_⟩
  rcases hreached with hreached | ⟨hshort, hend, hw, hfull⟩
  · by_cases hbig : fp.fsize < ofs
    · by_cases hw : fp.write = true
      · rw [if_pos hw] at hreached
        exact hgrow (ho.write.trans hw) hbig (by omega) fun hshort => absurd hshort (by omega)
      · rw [if_neg hw, Nat.min_eq_right (Nat.le_of_lt hbig)] at hreached
        obtain rfl : extra = [] := List.length_eq_zero_iff.mp (by omega)
        rw [List.append_nil, hreached, ← hlen]
        exact .seekEnd (ho.write.trans (Bool.eq_false_iff.mpr hw)) (hlen.symm ▸ hbig)
    · have hpos : pos = ofs := by
        split at hreached <;> omega
      obtain rfl : extra = [] := List.length_eq_zero_iff.mp (by omega)
      rw [List.append_nil, hpos]
      exact .seek (by omega)
  · exact hgrow (ho.write.trans hw) (by omega) (by omega) fun _ => hfull

theorem perform_served {op : Op} (h : fs.Good v) (ho : Opened v fs cl fp d) (hfits : op.Fits) :
    wp (perform v op) (Served v cl fs d op) (fun e => Served v cl fs d op (.refused e)) (fs, fp) := by
  cases op with
  | read btr => exact read_served h ho
  | write b => exact write_served h ho hfits
  | seek ofs => exact seek_served h ho hfits
  | truncate => exact truncate_served h ho

/-- The open files hold the rows of bytes, in clusters that no two of them share. -/
structure Represents {ι : Type} (v : Volume) (m : Mounted ι) (docs : ι → Doc) : Prop where
  good : m.fs.Good v
  files : ∃ chains : ι → List Nat, Layout (v.link m.fs.view) chains ∧
    ∀ i, Opened v m.fs (chains i) (m.files i) (docs i)

/-- One of the rows of bytes answers, and the others stay. -/
inductive DocStep {ι : Type} [DecidableEq ι] : (ι → Doc) → Call ι → (ι → Doc) → Prop
  | call {docs : ι → Doc} {l : Call ι} {d : Doc} : Doc.Step (l.full = true) (docs l.file) l.op l.answer d →
      DocStep docs l (Function.update docs l.file d)

theorem Volume.full_iff {view : Nat → Bytes} : v.Full view ↔ v.freeSet view = ∅ := by
  rw [Finset.eq_empty_iff_forall_notMem]
  exact forall_congr' fun c => by rw [Volume.mem_freeSet, not_and]

theorem Represents.step {ι : Type} [DecidableEq ι] {m m' : Mounted ι} {docs : ι → Doc} {l : Call ι}
    (h : Represents v m docs) (hstep : m.Step v l m') : ∃ docs', DocStep docs l docs' ∧ Represents v m' docs' := by
  cases hstep with
  | @call i op hfits =>
    obtain ⟨chains, hlayout, hopened⟩ := h.files
    rw [Mounted.call]
    generalize hexec : exec (perform v op) (m.fs, m.files i) = t
    obtain ⟨r, fs', fp'⟩ := t
    have hserved : Served v (chains i) m.fs (docs i) op (answer r) (fs', fp') := by
      have hall := perform_served h.good (hopened i) hfits
      cases r with
      | ok a => exact hall.exec_ok hexec
      | error e => exact hall.exec_error hexec
    obtain ⟨cl', d', hrewrites, ho, hdoc⟩ := hserved
    have hothers := fun j (hj : j ≠ i) => hrewrites.others (hopened j) (hlayout.disjoint hj.symm)
    have hcells : ∀ c ∈ cl', c ∈ chains i ∨ v.link m.fs.view c = .free := fun c hc =>
      (hrewrites.fresh c hc).imp_right Volume.link_free.mpr
    have hlayout' : Layout (v.link fs'.view) (Function.update chains i cl') := by
      refine hlayout.update hrewrites.chain.chain (fun j hj c hc => ?_) hcells
      have hkeep := hrewrites.entries c ((hopened j).placed.chain.cluster c hc)
        (fun hin => hlayout.disjoint hj.symm hin hc) fun hin => (hothers j hj).2 hin hc
      rw [Volume.link, Volume.link, hkeep]
    have hfull : (v.Full fs'.view) = (decide (v.freeSet fs'.view = ∅) = true) := by
      rw [decide_eq_true_eq, Volume.full_iff]
    change Doc.Step (v.Full fs'.view) _ _ _ _ at hdoc
    rw [hfull] at hdoc
    refine ⟨Function.update docs i d', .call hdoc, hrewrites.good, Function.update chains i cl', hlayout', fun j => ?_⟩
    by_cases hj : j = i
    · subst hj
      simp only [Function.update_self]
      exact ho
    · simp only [Function.update_of_ne hj]
      exact (hothers j hj).1

theorem Mounted.calls_run {ι : Type} [DecidableEq ι] {m : Mounted ι} {ops : List (ι × Op)} (h : ∀ p ∈ ops, p.2.Fits) :
    Run (Mounted.Step v) m (m.calls v ops).1 (m.calls v ops).2 := by
  induction ops generalizing m with
  | nil => exact .nil
  | cons p ops ih =>
    obtain ⟨i, op⟩ := p
    exact .cons (.call (h _ List.mem_cons_self)) (ih fun q hq => h q (List.mem_cons_of_mem _ hq))

/-- Whatever is called for the open files, and in whatever order, they answer as rows of bytes that have
nothing to do with each other. -/
theorem files_simulate_docs {ι : Type} [DecidableEq ι] {m : Mounted ι} {docs : ι → Doc} {ops : List (ι × Op)}
    (h : Represents v m docs) (hfits : ∀ p ∈ ops, p.2.Fits) :
    ∃ docs', Run DocStep docs (m.calls v ops).1 docs' ∧ Represents v (m.calls v ops).2 docs' :=
  (Mounted.calls_run hfits).simulate Represents.step h

/-- An empty file of the small volume. -/
def tinyFile : Fil := ⟨true, true, false, false, 0, 0, 0, 0, 0, 2, 0⟩

theorem tiny_opened : Opened tinyVolume (tinyFs fun _ => false) [] tinyFile ⟨[], 0, true, true⟩ where
  placed := ⟨.nil _ _, rfl, Nat.zero_le _, fun hc => absurd hc (Nat.lt_irrefl 0), fun hc => absurd (Nat.zero_mod 512) hc⟩
  room := Nat.zero_le _
  within := le_rfl
  size_lt := Nat.two_pow_pos 32
  fine := rfl
  data := rfl
  pos := rfl
  read := rfl
  write := rfl

theorem files_simulate_docs_tiny : ∃ docs', Run DocStep (fun _ : Bool => ⟨[], 0, true, true⟩)
    [⟨true, .write [1, 2, 3], .count 3, false⟩, ⟨false, .write [9], .count 1, false⟩, ⟨true, .seek 1, .done, false⟩,
      ⟨true, .read 5, .bytes [2, 3], false⟩] docs' := by
  have hrep : Represents tinyVolume ⟨tinyFs fun _ => false, fun _ : Bool => tinyFile⟩ fun _ => ⟨[], 0, true, true⟩ :=
    ⟨tiny_good, fun _ => [], ⟨fun _ => .nil, fun _ _ _ => List.disjoint_nil_left []⟩, fun _ => tiny_opened⟩
  have hfits : ∀ p ∈ [(true, Op.write [1, 2, 3]), (false, .write [9]), (true, .seek 1), (true, .read 5)], p.2.Fits := by
    simp [Op.Fits]
  obtain ⟨docs', hrun, -⟩ := files_simulate_docs hrep hfits
  have hcalls : (Mounted.calls tinyVolume ⟨tinyFs fun _ => false, fun _ : Bool => tinyFile⟩
      [(true, .write [1, 2, 3]), (false, .write [9]), (true, .seek 1), (true, .read 5)]).1 =
      [⟨true, .write [1, 2, 3], .count 3, false⟩, ⟨false, .write [9], .count 1, false⟩, ⟨true, .seek 1, .done, false⟩,
        ⟨true, .read 5, .bytes [2, 3], false⟩] := by decide +kernel
  rw [hcalls] at hrun
  exact ⟨docs', hrun⟩

end MiMic.Fat
