import MiMic.Fat.File
import Mathlib.Data.List.GetD

/-!
# Where the bytes of a file lie

The clusters of a chain, one behind the other, make up a file. What an open file keeps of its
position is right when it agrees with the chain.
-/
namespace MiMic.Fat

open Verif Verif.Prog Verif.WriteBack

/-- The cluster a sector of the data area belongs to. -/
def clusterOf (v : Volume) (s : Nat) : Nat := (s - v.database) / v.csize + 2

/-- The sector of a file with the given number. -/
def sectorAt (v : Volume) (cl : List Nat) (k : Nat) : Nat :=
  v.database + (cl.getD (k / v.csize) 2 - 2) * v.csize + k % v.csize

def byteAt (v : Volume) (view : Nat → Bytes) (cl : List Nat) (i : Nat) : UInt8 :=
  view (sectorAt v cl (i / 512)) (i % 512)

/-- The chain and the position of an open file. -/
structure Placed (v : Volume) (view : Nat → Bytes) (cl : List Nat) (fp : Fil) : Prop where
  chain : FileChain v view cl
  start : fp.sclust = cl.headD 0
  inside : fp.fptr ≤ cl.length * (v.csize * 512)
  current : 0 < fp.fptr → cl[(fp.fptr - 1) / (v.csize * 512)]? = some fp.clust
  sector : fp.fptr % 512 ≠ 0 → fp.dsect = sectorAt v cl (fp.fptr / 512)

variable {v : Volume} {view view' : Nat → Bytes} {cl : List Nat} {fp : Fil} {k : Nat} {fs fs' : Fs}

theorem database_le_sectorAt : v.database ≤ sectorAt v cl k := by
  rw [sectorAt]
  omega

theorem clusterOf_sectorAt (h : 2 ≤ cl.getD (k / v.csize) 2) :
    clusterOf v (sectorAt v cl k) = cl.getD (k / v.csize) 2 := by
  have hpos := v.csize_pos
  have hsub : sectorAt v cl k - v.database = v.csize * (cl.getD (k / v.csize) 2 - 2) + k % v.csize := by
    rw [sectorAt, Nat.mul_comm]
    omega
  rw [clusterOf, hsub, Nat.mul_add_div hpos, Nat.div_eq_of_lt (Nat.mod_lt _ hpos)]
  omega

/-- The clusters lie on the card. -/
theorem sectorAt_lt (h : v.Cluster (cl.getD (k / v.csize) 2)) : sectorAt v cl k < 2 ^ 32 := by
  have hpos := v.csize_pos
  have hmod := Nat.mod_lt k hpos
  have hdisk := v.fits_disk
  have hmul : (cl.getD (k / v.csize) 2 - 2 + 1) * v.csize ≤ (v.nFatent - 2) * v.csize := by
    refine Nat.mul_le_mul_right _ ?_
    have h1 := h.1
    have h2 := h.2
    omega
  rw [Nat.add_mul, Nat.one_mul] at hmul
  rw [sectorAt]
  omega

theorem sectorAt_add {j : Nat} (h : k % v.csize + j < v.csize) :
    sectorAt v cl (k + j) = sectorAt v cl k + j := by
  have hpos := v.csize_pos
  have hsplit := Nat.div_add_mod k v.csize
  have hsum : k + j = v.csize * (k / v.csize) + (k % v.csize + j) := by omega
  have hdiv : (k + j) / v.csize = k / v.csize := by
    rw [hsum, Nat.mul_add_div hpos, Nat.div_eq_of_lt h, Nat.add_zero]
  have hmod : (k + j) % v.csize = k % v.csize + j := by
    rw [hsum, Nat.mul_add_mod, Nat.mod_eq_of_lt h]
  rw [sectorAt, sectorAt, hdiv, hmod]
  omega

/-- A position in front of the end stands in a cluster of the chain. -/
theorem index_lt (h : k < cl.length * v.csize) : k / v.csize < cl.length :=
  (Nat.div_lt_iff_lt_mul v.csize_pos).mpr h

theorem getD_mem {d : Nat} (h : k < cl.length) : cl.getD k d ∈ cl := by
  rw [List.getD_eq_getElem _ _ h]
  exact List.getElem_mem h

theorem FileChain.at_cluster (h : FileChain v view cl) (hk : k < cl.length * v.csize) :
    v.Cluster (cl.getD (k / v.csize) 2) := h.cluster _ (getD_mem (index_lt hk))

theorem FileChain.primary (h : FileChain v view cl) (hk : k < cl.length * v.csize) :
    v.Primary (sectorAt v cl k) :=
  v.primary_data database_le_sectorAt (sectorAt_lt (h.at_cluster hk))

/-- Different positions lie in different sectors. -/
theorem FileChain.sectorAt_inj (h : FileChain v view cl) {j : Nat} (hk : k < cl.length * v.csize)
    (hj : j < cl.length * v.csize) (heq : sectorAt v cl k = sectorAt v cl j) : k = j := by
  have hc := congrArg (clusterOf v) heq
  rw [clusterOf_sectorAt (h.at_cluster hk).1, clusterOf_sectorAt (h.at_cluster hj).1,
    List.getD_eq_getElem _ _ (index_lt hk), List.getD_eq_getElem _ _ (index_lt hj)] at hc
  have hdiv : k / v.csize = j / v.csize := (List.Nodup.getElem_inj_iff h.chain.nodup).mp hc
  have hmod : k % v.csize = j % v.csize := by
    rw [sectorAt, sectorAt, hdiv] at heq
    omega
  rw [← Nat.div_add_mod k v.csize, ← Nat.div_add_mod j v.csize, hdiv, hmod]

theorem sectorAt_append {r : List Nat} (h : k < cl.length * v.csize) :
    sectorAt v (cl ++ r) k = sectorAt v cl k := by
  rw [sectorAt, sectorAt, List.getD_append _ _ _ _ (index_lt h)]

theorem clust2sect_eq {c : Nat} (h : v.Cluster c) : clust2sect v c = v.database + (c - 2) * v.csize := by
  have h1 := h.1
  have h2 := h.2
  have hlt := Volume.cluster_lt h2
  have hsub : (c + (2 ^ 32 - 2)) % 2 ^ 32 = c - 2 := by omega
  rw [clust2sect, hsub, if_neg (by omega), Nat.add_comm]

theorem sectorOffset_eq (v : Volume) (fptr : Nat) : sectorOffset v fptr = fptr / 512 % v.csize := by
  obtain ⟨n, -, hn⟩ := v.csize_pow
  rw [sectorOffset, hn]
  exact Nat.and_two_pow_sub_one_eq_mod _ _

/-- Sectors to bytes: a position of the file and the position of its sector. -/
theorem sector_lt {i n : Nat} (h : i < n * (v.csize * 512)) : i / 512 < n * v.csize := by
  rw [← Nat.mul_assoc] at h
  omega

theorem div_sector (i : Nat) : i / (v.csize * 512) = i / 512 / v.csize := by
  rw [Nat.mul_comm, Nat.div_div_eq_div_mul]

theorem cluster_mod (i n : Nat) : i % (n * 512) = i % 512 + 512 * (i / 512 % n) := by
  rw [Nat.mul_comm, Nat.mod_mul]

theorem database_pos (v : Volume) : 0 < v.database := by
  have hpos := v.fatbase_pos
  have hle := v.fat_le
  omega

/-- Up to the end of a cluster the last byte stays in it. -/
theorem cluster_step {i c n : Nat} (hc : cl[i / (v.csize * 512)]? = some c) (hn : 0 < n)
    (hle : i % (v.csize * 512) + n ≤ v.csize * 512) :
    i + n ≤ cl.length * (v.csize * 512) ∧ cl[(i + n - 1) / (v.csize * 512)]? = some c := by
  have hpos : 0 < v.csize * 512 := Nat.mul_pos v.csize_pos (by decide)
  have hsplit := Nat.div_add_mod i (v.csize * 512)
  have hlt : i / (v.csize * 512) < cl.length := (List.getElem?_eq_some_iff.mp hc).1
  constructor
  · have hmul := Nat.mul_le_mul_left (v.csize * 512) (Nat.succ_le_of_lt hlt)
    rw [Nat.mul_succ, Nat.mul_comm _ cl.length] at hmul
    omega
  · have hsame : i + n - 1 = v.csize * 512 * (i / (v.csize * 512)) + (i % (v.csize * 512) + n - 1) := by
      omega
    have hin : i % (v.csize * 512) + n - 1 < v.csize * 512 := by omega
    rw [hsame, Nat.mul_add_div hpos, Nat.div_eq_of_lt hin, Nat.add_zero]
    exact hc

namespace Placed

/-- At a cluster boundary the current cluster is the one in front of the position. -/
theorem boundary (h : Placed v view cl fp) (hpos : 0 < fp.fptr) (hmod : fp.fptr % (v.csize * 512) = 0) :
    cl[fp.fptr / (v.csize * 512) - 1]? = some fp.clust ∧ 0 < fp.fptr / (v.csize * 512) := by
  obtain ⟨i, hi⟩ := Nat.exists_eq_add_of_lt hpos
  have hcur := h.current hpos
  have hdvd : v.csize * 512 ∣ i + 1 := by
    rw [← show fp.fptr = i + 1 by omega]
    exact Nat.dvd_of_mod_eq_zero hmod
  have hdiv : fp.fptr / (v.csize * 512) = i / (v.csize * 512) + 1 := by
    rw [show fp.fptr = i + 1 by omega]
    exact Nat.succ_div_of_dvd hdvd
  have hpred : fp.fptr - 1 = i := by omega
  rw [hpred] at hcur
  rw [hdiv]
  exact ⟨hcur, Nat.succ_pos _⟩

/-- Elsewhere it is the one the position stands in. -/
theorem within (h : Placed v view cl fp) (hmod : fp.fptr % (v.csize * 512) ≠ 0) :
    cl[fp.fptr / (v.csize * 512)]? = some fp.clust := by
  have hpos : 0 < fp.fptr := Nat.pos_of_ne_zero fun h0 => hmod (by rw [h0, Nat.zero_mod])
  obtain ⟨i, hi⟩ := Nat.exists_eq_add_of_lt hpos
  have hcur := h.current hpos
  have hdvd : ¬v.csize * 512 ∣ i + 1 := by
    rw [← show fp.fptr = i + 1 by omega]
    exact fun hd => hmod (Nat.mod_eq_zero_of_dvd hd)
  have hdiv : fp.fptr / (v.csize * 512) = i / (v.csize * 512) := by
    rw [show fp.fptr = i + 1 by omega]
    exact Nat.succ_div_of_not_dvd hdvd
  have hpred : fp.fptr - 1 = i := by omega
  rw [hpred] at hcur
  rw [hdiv]
  exact hcur

/-- The position moves on inside the cluster it stands in. -/
theorem advance (h : Placed v view cl fp) {c d n : Nat} (hc : cl[fp.fptr / (v.csize * 512)]? = some c)
    (hn : 0 < n) (hle : fp.fptr % (v.csize * 512) + n ≤ v.csize * 512)
    (hd : (fp.fptr + n) % 512 ≠ 0 → d = sectorAt v cl ((fp.fptr + n) / 512)) :
    Placed v view cl { fp with fptr := fp.fptr + n, clust := c, dsect := d } :=
  ⟨h.chain, h.start, (cluster_step hc hn hle).1, fun _ => (cluster_step hc hn hle).2, hd⟩

end Placed

theorem FileChain.still (h : FileChain v fs.view cl) (hs : Still v fs fs') : FileChain v fs'.view cl :=
  h.congr fun c hc => hs.entry (h.cluster c hc).2

theorem Placed.still (h : Placed v fs.view cl fp) (hs : Still v fs fs') : Placed v fs'.view cl fp :=
  ⟨h.chain.still hs, h.start, h.inside, h.current, h.sector⟩

theorem FileChain.byteAt_still (h : FileChain v fs.view cl) (hs : Still v fs fs') {i : Nat}
    (hi : i < cl.length * (v.csize * 512)) : byteAt v fs'.view cl i = byteAt v fs.view cl i :=
  congrFun (hs.view _ (h.primary (sector_lt hi))) _

end MiMic.Fat
