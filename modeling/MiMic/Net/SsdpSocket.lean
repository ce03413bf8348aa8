import MiMic.Net.SsdpLines

/-!
# Answers to an M-SEARCH

`onPacket` of `NyLPC_cSsdpSocket` compares the value of `ST` with what the devices and their
services are called. A device is what the device tree lists of it.
-/
namespace MiMic.Net

open MiMic.Http MiMic.Http.BasicHeaderParser

namespace Ssdp

/-- `NyLPC_TUPnPDevDescDevice`, with the types of its services. -/
structure UPnPDevice where
  deviceType : List UInt8
  udn : List UInt8
  services : List (List UInt8)

/-- `ref_device_record`: the root device is the first one. -/
structure SsdpSocket where
  rootDevice : UPnPDevice
  embedded : List UPnPDevice

def SsdpSocket.devices (s : SsdpSocket) : List UPnPDevice := s.rootDevice :: s.embedded

/-- `strncmp(s,m+off,n)==0` for a string. -/
def strncmpEq (m : Memory) : Nat → List UInt8 → Nat → Bool
  | _, _, 0 => true
  | off, [], _ + 1 => m off == 0
  | off, c :: s, n + 1 => m off == c && strncmpEq m (off + 1) s n

def strRootDevice : List UInt8 := ascii "upnp:rootdevice"
def strSsdpAll : List UInt8 := ascii "ssdp:all"
def strUuid : List UInt8 := ascii "uuid:"
def strUrn : List UInt8 := ascii "urn:"
def strDiscover : List UInt8 := ascii "\"ssdp:discover\""

/-- What `allocMsearchResponeTx` makes a response from, besides the value of `ST`. -/
structure Response where
  udn : List UInt8
  usn : Option (List UInt8)
deriving DecidableEq, Repr

/-- The type or the uuid that the response is about. -/
def Response.target (r : Response) : List UInt8 := r.usn.getD r.udn

def SsdpSocket.rootResponse (s : SsdpSocket) : Response := ⟨s.rootDevice.udn, some strRootDevice⟩

/-- The loops that send to all: each device and then its services. -/
def UPnPDevice.responses (d : UPnPDevice) : List Response :=
  ⟨d.udn, some d.deviceType⟩ :: d.services.map fun t => ⟨d.udn, some t⟩

/-- The loop behind `urn:` for one device. -/
def UPnPDevice.urnResponses (d : UPnPDevice) (m : Memory) (st len : Nat) : List Response :=
  if strncmpEq m st d.deviceType len then [⟨d.udn, some d.deviceType⟩]
  else (d.services.filter fun t => strncmpEq m st t len).map fun t => ⟨d.udn, some t⟩

/-- The branches on `ST`, which is at `st` with `len` characters. A response that finds no buffer
or is not sent ends the handler, so the first ones of these are sent. -/
def msearchResponses (s : SsdpSocket) (m : Memory) (st len : Nat) : List Response :=
  if strncmpEq m st strSsdpAll 8 then s.rootResponse :: s.devices.flatMap UPnPDevice.responses
  else if strncmpEq m st strUuid 5 then
    ((s.devices.reverse.find? fun d => strncmpEq m st d.udn len).map fun d =>
      (⟨d.udn, none⟩ : Response)).toList
  else if strncmpEq m st strRootDevice 15 then [s.rootResponse]
  else if strncmpEq m st strUrn 4 then s.devices.flatMap fun d => d.urnResponses m st len
  else []

/-- The checks of the method and of `MAN`. -/
def isSearch (p : Parser) (m : Memory) : Bool :=
  p.out.method == some .mSearch &&
    match p.user.manStr with
    | none => false
    | some man => strncmpEq m man strDiscover 15

/-- `onPacket`. The header and what is not initialized of it are `out` and `h`. -/
def onPacket (s : SsdpSocket) (out : BasicHeader) (h : MSearchHeader) (m : Memory) (size : UInt16) :
    List Response :=
  let p := parseHeader out h m size
  match p.user.stStr with
  | none => []
  | some st => if isSearch p m then msearchResponses s m st p.user.stLen.toNat else []

/-- The line that holds a place ends at `e`, with or without CR. -/
def LineEnds (m : Memory) (n start e : Nat) : Prop :=
  m e = chCr ∧ m (e + 1) = chLf ∧ e + 1 < n ∨
    m e = chLf ∧ e < n ∧ (start < e → m (e - 1) ≠ chCr)

/-- A line begins with the name `ST` and the colon at `k`, and its value begins at `st`. -/
structure StLine (m : Memory) (k st : Nat) : Prop where
  name : ∃ b, b + 3 = k ∧ m b = chLf ∧ tolower (m (b + 1)) = 0x73 ∧ tolower (m (b + 2)) = 0x74
  colon : m k = chColon
  lt : k < st
  spaces : ∀ j, k < j → j < st → m j = chSpace
  first : m st ≠ chSpace

/-- No empty line comes before `k`. -/
def InHead (m : Memory) (k : Nat) : Prop :=
  ∀ i j, i < j → j < k → m i = chLf → m j = chLf → ∃ q, i < q ∧ q < j ∧ m q ≠ chCr

/-- A header `ST` of the datagram has its value at `st`, with `len` characters. -/
structure IsStHeader (m : Memory) (n st len : Nat) : Prop where
  line : ∃ k, StLine m k st ∧ InHead m k
  text : ∀ j, st ≤ j → j < st + len → m j ≠ chLf
  ends : LineEnds m n st (st + len)

/-- The value asks for what a response is about. -/
def Asked (v : List UInt8) (r : Response) : Prop :=
  v = strSsdpAll ∨ v = strRootDevice ∨ v = r.target

/-- The header is read inside the datagram, the value of the header `ST` is found, and only what is
asked for is answered. -/
structure MatchesSearch (s : SsdpSocket) (out : BasicHeader) (h : MSearchHeader) (m : Memory)
    (size : UInt16) : Prop where
  inside : (parseHeader out h m size).user.readsNull = false ∧
    ∀ m' : Memory, (∀ i < size.toNat, m' i = m i) → parseHeader out h m' size = parseHeader out h m size
  delimits : ∀ st, (parseHeader out h m size).user.stStr = some st →
    IsStHeader m size.toNat st (parseHeader out h m size).user.stLen.toNat
  finds : (∃ st len, IsStHeader m size.toNat st len) →
    (parseHeader out h m size).user.stStr ≠ none
  answers : ∀ st, (parseHeader out h m size).user.stStr = some st →
    ∀ r ∈ onPacket s out h m size,
      Asked (m.window st (parseHeader out h m size).user.stLen.toNat) r

/-- What the value begins with, or what begins with the value, is the value. -/
structure TargetsStand (s : SsdpSocket) (v : List UInt8) : Prop where
  all : strSsdpAll <+: v → v = strSsdpAll
  root : strRootDevice <+: v → v = strRootDevice
  uuid : strUuid <+: v → ∀ d, (s.devices.reverse.find? fun d => v.isPrefixOf d.udn) = some d →
    v = d.udn
  urn : strUrn <+: v → ∀ d ∈ s.devices, (v <+: d.deviceType → v = d.deviceType) ∧
    (¬ v <+: d.deviceType → ∀ t ∈ d.services, v <+: t → v = t)

/-- In a value that goes to the handler nothing but CR stands behind a NUL. -/
def NulsLast (m : Memory) (n : Nat) : Prop :=
  ∀ k name q i, (k, name) ∈ fields m n → k < q → q < i → i < n →
    (∀ j, k < j → j < i → m j ≠ chLf) → m q = 0 → m i = chCr

/-- The last of the fields with a name that the handler takes for `tag`. -/
structure LastField (m : Memory) (n : Nat) (tag : ParseSt) (k : Nat) : Prop where
  field : ∃ name, (k, name) ∈ fields m n ∧ tagOf name = tag
  last : ∀ k' name, (k', name) ∈ fields m n → k < k' → tagOf name ≠ tag

/-- The value of the last field `MAN` begins with the text of a search. -/
def AsksDiscover (m : Memory) (n : Nat) : Prop :=
  ∃ k s, LastField m n .man k ∧ k < s ∧ s < n ∧ ¬ Blank (m s) ∧ (∀ j, k < j → j < s → Blank (m j)) ∧
    strncmpEq m s strDiscover 15 = true

/-- The datagram is an M-SEARCH. -/
def IsSearch (out : BasicHeader) (m : Memory) (n : Nat) : Prop :=
  methodOf out m n = some .mSearch ∧ AsksDiscover m n

/-- The last field `ST` is a line of the head with this name, and a value that does not begin with
CR and ends with CR and LF; a search for it is for something that is called so. -/
def StStands (s : SsdpSocket) (out : BasicHeader) (m : Memory) (size : UInt16) : Prop :=
  ∀ k, LastField m (loopLength size) .st k →
    (∀ j, k < j → j < loopLength size → Blank (m j)) ∨
      ∃ st e, StLine m k st ∧ InHead m k ∧ m st ≠ chCr ∧ st < e ∧ m e = chCr ∧ m (e + 1) = chLf ∧
        e + 1 < loopLength size ∧ (∀ j, k < j → j ≤ e → m j ≠ chLf) ∧
        (IsSearch out m (loopLength size) → TargetsStand s (m.window st (e - st)))

/-- Where the datagram has a header `ST`, such a field is read, and the last one of them is not
blank. -/
def StIsRead (m : Memory) (size : UInt16) : Prop :=
  (∃ st len, IsStHeader m size.toNat st len) →
    ∃ k j, LastField m (loopLength size) .st k ∧ k < j ∧ j < loopLength size ∧ ¬ Blank (m j)

section

variable {m : Memory} {off : Nat}

theorem window_cons (m : Memory) (off n : Nat) :
    m.window off (n + 1) = m off :: m.window (off + 1) n := by
  rw [Memory.window, List.range_succ_eq_map, List.map_cons, List.map_map]
  refine congrArg _ (List.map_congr_left fun i _ => ?_)
  rw [Function.comp_apply, Nat.succ_eq_add_one, Nat.add_right_comm, Nat.add_assoc]

/-- A text without CR is found where a value that ends at a CR begins with it. -/
theorem strncmpEq_text {t : List UInt8} (ht : ∀ c ∈ t, c ≠ chCr) {len : Nat}
    (hend : m (off + len) = chCr) :
    strncmpEq m off t t.length = true ↔ t <+: m.window off len := by
  induction t generalizing off len with
  | nil => exact iff_of_true rfl List.nil_prefix
  | cons c t ih =>
    rw [List.length_cons, strncmpEq, Bool.and_eq_true, beq_iff_eq]
    cases len with
    | zero =>
      refine iff_of_false (fun h => ?_) fun h => ?_
      · rw [← h.1] at ht
        exact ht _ List.mem_cons_self hend
      · exact absurd (List.prefix_nil.mp h) (List.cons_ne_nil c t)
    | succ len =>
      have hend' : m (off + 1 + len) = chCr := by
        rw [Nat.add_right_comm]
        exact hend
      rw [window_cons, List.cons_prefix_cons, ih (fun d hd => ht d (List.mem_cons_of_mem _ hd)) hend',
        eq_comm]

/-- A value without a NUL is compared equal where it is the beginning of a string. -/
theorem strncmpEq_value {t : List UInt8} {len : Nat} (hne : ∀ j < len, m (off + j) ≠ 0) :
    strncmpEq m off t len = true ↔ m.window off len <+: t := by
  induction len generalizing off t with
  | zero => exact iff_of_true (by cases t <;> rfl) List.nil_prefix
  | succ len ih =>
    rw [window_cons]
    cases t with
    | nil =>
      refine iff_of_false (fun h => hne 0 (Nat.succ_pos len) (beq_iff_eq.mp h)) fun h => ?_
      exact absurd (List.prefix_nil.mp h) (List.cons_ne_nil _ _)
    | cons c t =>
      rw [strncmpEq, Bool.and_eq_true, beq_iff_eq, List.cons_prefix_cons,
        ih fun j hj => by rw [Nat.add_right_comm]; exact hne (j + 1) (by omega)]

end

/-- Of the four beginnings that the handler knows, a value has one at most. -/
theorem not_both {a b v : List UInt8} (h : ¬ a <+: b) (h' : ¬ b <+: a) (ha : a <+: v) : ¬ b <+: v :=
  fun hb => (List.prefix_or_prefix_of_prefix ha hb).elim h h'

theorem not_asked {v : List UInt8} {r : Response} (hall : v ≠ strSsdpAll) (hroot : v ≠ strRootDevice)
    (hr : Asked v r) : v = r.target :=
  hr.elim (fun h => absurd h hall) fun h => h.elim (fun h => absurd h hroot) id

section

variable {s : SsdpSocket} {m : Memory} {st len : Nat}

/-- A value with one of the two beginnings of names is none of the two keywords. -/
theorem ne_of_begin {a k v : List UInt8} (h : ¬ a <+: k) (hv : a <+: v) : v ≠ k :=
  fun heq => h (heq ▸ hv)

theorem asked_iff_all {v : List UInt8} (hv : strSsdpAll <+: v) :
    (∀ r ∈ s.rootResponse :: s.devices.flatMap UPnPDevice.responses, Asked v r) ↔ v = strSsdpAll := by
  have hroot : v ≠ strRootDevice := ne_of_begin (by decide) hv
  constructor
  · intro h
    rcases h s.rootResponse List.mem_cons_self with hall | hkey | htarget
    · exact hall
    · exact absurd hkey hroot
    · exact absurd htarget hroot
  · exact fun h r _ => .inl h

theorem asked_iff_root {v : List UInt8} (hv : strRootDevice <+: v) :
    (∀ r ∈ [s.rootResponse], Asked v r) ↔ v = strRootDevice := by
  have hall : v ≠ strSsdpAll := ne_of_begin (by decide) hv
  constructor
  · intro h
    rcases h s.rootResponse List.mem_cons_self with hkey | hroot | htarget
    · exact absurd hkey hall
    · exact hroot
    · exact htarget
  · exact fun h r _ => .inr (.inl h)

theorem asked_iff_uuid {v : List UInt8} (hv : strUuid <+: v) (found : Option UPnPDevice) :
    (∀ r ∈ (found.map fun d => (⟨d.udn, none⟩ : Response)).toList, Asked v r) ↔
      ∀ d, found = some d → v = d.udn := by
  have hall : v ≠ strSsdpAll := ne_of_begin (by decide) hv
  have hroot : v ≠ strRootDevice := ne_of_begin (by decide) hv
  cases found with
  | none =>
    refine iff_of_true (fun r hr => absurd hr List.not_mem_nil) fun d hd => ?_
    exact absurd hd.symm (Option.some_ne_none d)
  | some d =>
    constructor
    · intro h d' hd'
      obtain rfl := Option.some.inj hd'
      exact not_asked hall hroot (h ⟨d.udn, none⟩ (List.mem_singleton.mpr rfl))
    · intro h r hr
      rw [List.mem_singleton.mp hr]
      exact .inr (.inr (h d rfl))

theorem asked_iff_urn {v : List UInt8} (hv : strUrn <+: v)
    (hcmp : ∀ t, strncmpEq m st t len = true ↔ v <+: t) (d : UPnPDevice) :
    (∀ r ∈ d.urnResponses m st len, Asked v r) ↔
      (v <+: d.deviceType → v = d.deviceType) ∧
        (¬ v <+: d.deviceType → ∀ t ∈ d.services, v <+: t → v = t) := by
  have hall : v ≠ strSsdpAll := ne_of_begin (by decide) hv
  have hroot : v ≠ strRootDevice := ne_of_begin (by decide) hv
  rw [UPnPDevice.urnResponses]
  by_cases hd : v <+: d.deviceType
  · rw [if_pos ((hcmp _).mpr hd)]
    constructor
    · intro h
      have htarget := not_asked hall hroot (h ⟨d.udn, some d.deviceType⟩ (List.mem_singleton.mpr rfl))
      exact ⟨fun _ => htarget, fun hno => absurd hd hno⟩
    · intro h r hr
      rw [List.mem_singleton.mp hr]
      exact .inr (.inr (h.1 hd))
  · rw [if_neg fun hcomp => hd ((hcmp _).mp hcomp)]
    constructor
    · intro h
      refine ⟨fun hyes => absurd hyes hd, fun _ t ht hvt => ?_⟩
      have hmem : t ∈ d.services.filter fun t => strncmpEq m st t len :=
        List.mem_filter.mpr ⟨ht, (hcmp t).mpr hvt⟩
      exact not_asked hall hroot (h ⟨d.udn, some t⟩ (List.mem_map.mpr ⟨t, hmem, rfl⟩))
    · intro h r hr
      obtain ⟨t, ht, htr⟩ := List.mem_map.mp hr
      obtain ⟨hmem, hvt⟩ := List.mem_filter.mp ht
      rw [← htr]
      exact .inr (.inr (h.2 hd t hmem ((hcmp t).mp hvt)))

/-- The answers to a value that ends at CR are those that it asks for exactly when what begins it,
or what it begins, is all of it. -/
theorem msearchResponses_asked_iff (hend : m (st + len) = chCr) (hne : ∀ j < len, m (st + j) ≠ 0) :
    (∀ r ∈ msearchResponses s m st len, Asked (m.window st len) r) ↔
      TargetsStand s (m.window st len) := by
  have hcmp : ∀ t, strncmpEq m st t len = true ↔ m.window st len <+: t := fun t =>
    strncmpEq_value hne
  have hall : strncmpEq m st strSsdpAll 8 = true ↔ strSsdpAll <+: m.window st len :=
    strncmpEq_text (by decide) hend
  have huuid : strncmpEq m st strUuid 5 = true ↔ strUuid <+: m.window st len :=
    strncmpEq_text (by decide) hend
  have hroot : strncmpEq m st strRootDevice 15 = true ↔ strRootDevice <+: m.window st len :=
    strncmpEq_text (by decide) hend
  have hurn : strncmpEq m st strUrn 4 = true ↔ strUrn <+: m.window st len :=
    strncmpEq_text (by decide) hend
  rw [msearchResponses]
  generalize m.window st len = v at *
  by_cases h1 : strSsdpAll <+: v
  · rw [if_pos (hall.mpr h1), asked_iff_all h1]
    refine ⟨fun h => ⟨fun _ => h, ?_, ?_, ?_⟩, fun h => h.all h1⟩
    · exact fun h' => absurd h' (not_both (by decide) (by decide) h1)
    · exact fun h' => absurd h' (not_both (by decide) (by decide) h1)
    · exact fun h' => absurd h' (not_both (by decide) (by decide) h1)
  rw [if_neg (mt hall.mp h1)]
  by_cases h2 : strUuid <+: v
  · have hfind : (s.devices.reverse.find? fun d => strncmpEq m st d.udn len) =
        s.devices.reverse.find? fun d => v.isPrefixOf d.udn := by
      congr 1
      funext d
      rw [Bool.eq_iff_iff, hcmp, List.isPrefixOf_iff_prefix]
    rw [if_pos (huuid.mpr h2), hfind, asked_iff_uuid h2]
    refine ⟨fun h => ⟨fun h' => absurd h' h1, ?_, fun _ => h, ?_⟩, fun h => h.uuid h2⟩
    · exact fun h' => absurd h' (not_both (by decide) (by decide) h2)
    · exact fun h' => absurd h' (not_both (by decide) (by decide) h2)
  rw [if_neg (mt huuid.mp h2)]
  by_cases h3 : strRootDevice <+: v
  · rw [if_pos (hroot.mpr h3), asked_iff_root h3]
    refine ⟨fun h => ⟨fun h' => absurd h' h1, fun _ => h, fun h' => absurd h' h2, ?_⟩,
      fun h => h.root h3⟩
    exact fun h' => absurd h' (not_both (by decide) (by decide) h3)
  rw [if_neg (mt hroot.mp h3)]
  by_cases h4 : strUrn <+: v
  · rw [if_pos (hurn.mpr h4)]
    constructor
    · intro h
      refine ⟨fun h' => absurd h' h1, fun h' => absurd h' h3, fun h' => absurd h' h2,
        fun _ d hd => (asked_iff_urn h4 hcmp d).mp fun r hr => ?_⟩
      exact h r (List.mem_flatMap.mpr ⟨d, hd, hr⟩)
    · intro h r hr
      obtain ⟨d, hd, hr⟩ := List.mem_flatMap.mp hr
      exact (asked_iff_urn h4 hcmp d).mpr (h.urn h4 d hd) r hr
  · rw [if_neg (mt hurn.mp h4)]
    refine iff_of_true (fun r hr => absurd hr List.not_mem_nil) ⟨?_, ?_, ?_, ?_⟩
    · exact fun h' => absurd h' h1
    · exact fun h' => absurd h' h3
    · exact fun h' => absurd h' h2
    · exact fun h' => absurd h' h4

end

section

variable {out : BasicHeader} {h : MSearchHeader} {m : Memory} {size : UInt16}

theorem user_parseHeader (out : BasicHeader) (h : MSearchHeader) (m : Memory) (size : UInt16) :
    (parseHeader out h m size).user = (parserAt out h m (loopLength size)).user := by
  unfold parseHeader parseFinish
  split
  · rfl
  · split
    · rfl
    · rfl

theorem loopLength_le (size : UInt16) : loopLength size ≤ size.toNat := by
  unfold loopLength
  split
  · exact le_rfl
  · exact Nat.zero_le _

theorem loopLength_lt (size : UInt16) : loopLength size < 2 ^ 15 := by
  unfold loopLength
  split
  · assumption
  · decide

/-- The parser has seen the characters in front of it, and no others. -/
theorem parserAt_congr {m' : Memory} {n : Nat} (hm : ∀ i < n, m' i = m i) :
    parserAt out h m' n = parserAt out h m n := by
  induction n with
  | zero => rfl
  | succ n ih =>
    rw [parserAt, parserAt, ih fun i hi => hm i (Nat.lt_succ_of_lt hi), hm n (Nat.lt_succ_self n)]

theorem LastTag.unique {tag : ParseSt} {n k k' : Nat} (hk : LastTag out h m tag n k)
    (hk' : LastTag out h m tag n k') : k = k' := by
  rcases Nat.lt_trichotomy k k' with hlt | heq | hgt
  · exact absurd hk'.field (hk.last k' hlt hk'.lt)
  · exact heq
  · exact absurd hk.field (hk'.last k hgt hk.lt)

theorem method_testHeader {b b' : BasicHeader} (hok : testHeader b = .ok b') :
    b'.method = b.method := by
  unfold testHeader at hok
  split at hok
  · split_ifs at hok
    cases hok
    rfl
  · split_ifs at hok <;> cases hok <;> rfl
  · split_ifs at hok <;> cases hok <;> rfl
  · cases hok
  · cases hok

theorem valueLen_toNat {e s : Nat} (he : e < 2 ^ 15) (hs : s ≤ e) :
    (valueLen e s).toNat = if s = e then 65535 else e - s - 1 := by
  unfold valueLen
  rw [UInt16.toNat_sub, UInt16.toNat_sub, UInt16.toNat_ofNat', UInt16.toNat_ofNat']
  have h1 : (1 : UInt16).toNat = 1 := rfl
  rw [h1]
  split <;> omega

/-- Two places that are noted for a field at the first character that is not blank. -/
theorem noted_unique {k i s s' : Nat} (hn : Noted m k i (some s)) (hk : k < s')
    (hs' : ¬ Blank (m s')) (hblank : ∀ j, k < j → j < s' → Blank (m j)) : s = s' := by
  obtain ⟨hks, -, hs, hbefore⟩ := hn
  rcases Nat.lt_trichotomy s s' with hlt | heq | hgt
  · exact absurd (hblank s hks hlt) hs
  · exact heq
  · exact absurd (hbefore s' hk hgt) hs'

theorem not_blank_colon : ¬ Blank chColon := by
  rw [Blank]
  decide

/-- A noted place has one colon in front of it, with blanks between. -/
theorem colon_unique {k k' s : Nat} (hk : k < s) (hk' : k' < s) (hc : m k = chColon)
    (hc' : m k' = chColon) (hb : ∀ j, k < j → j < s → Blank (m j))
    (hb' : ∀ j, k' < j → j < s → Blank (m j)) : k = k' := by
  rcases Nat.lt_trichotomy k k' with hlt | heq | hgt
  · have hblank := hb k' hlt hk'
    rw [hc'] at hblank
    exact absurd hblank not_blank_colon
  · exact heq
  · have hblank := hb' k hgt hk
    rw [hc] at hblank
    exact absurd hblank not_blank_colon

theorem lastTag_iff {tag : ParseSt} {n k : Nat} :
    LastTag out h m tag n k ↔ LastField m n tag k := by
  constructor
  · rintro ⟨⟨hfield, htag⟩, hkn, hlast⟩
    refine ⟨⟨nameAt out h m k, (mem_fields_iff out h).mpr ⟨hkn, hfield, rfl⟩, htag⟩, ?_⟩
    intro k' name hmem hlt htag'
    obtain ⟨hkn', hfield', rfl⟩ := (mem_fields_iff out h).mp hmem
    exact hlast k' hlt hkn' ⟨hfield', htag'⟩
  · rintro ⟨⟨name, hmem, htag⟩, hlast⟩
    obtain ⟨hkn, hfield, rfl⟩ := (mem_fields_iff out h).mp hmem
    refine ⟨⟨hfield, htag⟩, hkn, fun k' hlt hkn' htag' => ?_⟩
    exact hlast k' _ ((mem_fields_iff out h).mpr ⟨hkn', htag'.1, rfl⟩) hlt htag'.2

theorem nulsEnd_iff {n : Nat} : NulsEnd out h m n ↔ NulsLast m n := by
  constructor
  · intro hnuls k name q i hmem
    exact hnuls k q i ((mem_fields_iff out h).mp hmem).2.1
  · intro hnuls k q i hfield hkq hqi hin
    have hkn : k < n := (hkq.trans hqi).trans hin
    exact hnuls k _ q i ((mem_fields_iff out h).mpr ⟨hkn, hfield, rfl⟩) hkq hqi hin

/-- The place of a noted field is that of the first character that is not blank, if it has one. -/
theorem str_of_tag {tag : ParseSt} (htag : IsNoted tag) {n : Nat}
    (hread : (parserAt out h m n).user.readsNull = false) (s : Nat) :
    (parserAt out h m n).user.str tag = some s ↔
      ∃ k, LastField m n tag k ∧ k < s ∧ s < n ∧ ¬ Blank (m s) ∧ ∀ j, k < j → j < s → Blank (m j) := by
  have hunique : ∀ {k k' i s'}, LastTag out h m tag n k → LastField m n tag k' →
      Noted m k i (some s') → k' < s → ¬ Blank (m s) → (∀ j, k' < j → j < s → Blank (m j)) →
      s' = s := by
    intro k k' i s' hk hk' hnoted hks hs hbefore
    obtain rfl := hk.unique (lastTag_iff.mpr hk')
    exact noted_unique hnoted hks hs hbefore
  cases tagResult htag n hread with
  | never hno _ hnone =>
    rw [hnone]
    refine iff_of_false (Option.some_ne_none s).symm ?_
    rintro ⟨k, hk, -⟩
    have hlast : LastTag out h m tag n k := lastTag_iff.mpr hk
    exact hno k hlast.lt hlast.field
  | @within k hlast _ _ hnoted =>
    cases hstr : (parserAt out h m n).user.str tag with
    | none =>
      rw [hstr] at hnoted
      refine iff_of_false (Option.some_ne_none s).symm ?_
      rintro ⟨k', hk', hks, hsn, hs, -⟩
      obtain rfl := hlast.unique (lastTag_iff.mpr hk')
      exact hs (hnoted s hks hsn)
    | some s' =>
      rw [hstr] at hnoted
      constructor
      · intro heq
        obtain rfl := Option.some.inj heq
        exact ⟨k, lastTag_iff.mp hlast, hnoted⟩
      · rintro ⟨k', hk', hks, -, hs, hbefore⟩
        rw [hunique hlast hk' hnoted hks hs hbefore]
  | @closed k e s' hlast _ hen _ _ _ hnoted hstr _ =>
    rw [hstr]
    constructor
    · intro heq
      obtain rfl := Option.some.inj heq
      obtain ⟨hks, hse, hs, hbefore⟩ := hnoted
      exact ⟨k, lastTag_iff.mp hlast, hks, hse.trans_le hen, hs, hbefore⟩
    · rintro ⟨k', hk', hks, -, hs, hbefore⟩
      rw [hunique hlast hk' hnoted hks hs hbefore]

/-- The first character that is not blank. -/
theorem exists_first {k n : Nat} (hex : ∃ j, k < j ∧ j < n ∧ ¬ Blank (m j)) :
    ∃ s, k < s ∧ s < n ∧ ¬ Blank (m s) ∧ ∀ j, k < j → j < s → Blank (m j) := by
  classical
  obtain ⟨hks, hsn, hs⟩ := Nat.find_spec hex
  refine ⟨Nat.find hex, hks, hsn, hs, fun j hkj hjs => ?_⟩
  by_contra hno
  exact Nat.find_min hex hjs ⟨hkj, hjs.trans hsn, hno⟩

/-- A place is noted for `ST` exactly when a field is read that is not blank. -/
theorem stStr_ne_none_iff {n : Nat} (hread : (parserAt out h m n).user.readsNull = false) :
    (parserAt out h m n).user.stStr ≠ none ↔
      ∃ k j, LastField m n .st k ∧ k < j ∧ j < n ∧ ¬ Blank (m j) := by
  rw [Option.ne_none_iff_exists']
  constructor
  · rintro ⟨s, hs⟩
    obtain ⟨k, hk, hks, hsn, hblank, -⟩ := (str_of_tag (Or.inl rfl) hread s).mp hs
    exact ⟨k, s, hk, hks, hsn, hblank⟩
  · rintro ⟨k, j, hk, hkj, hjn, hblank⟩
    obtain ⟨s, hs⟩ := exists_first ⟨j, hkj, hjn, hblank⟩
    exact ⟨s, (str_of_tag (Or.inl rfl) hread s).mpr ⟨k, hk, hs⟩⟩

/-- Behind a field that is read, the checks of the handler are those of the method and of `MAN`. -/
theorem isSearch_iff {k : Nat} {tag : ParseSt}
    (hread : (parserAt out h m (loopLength size)).user.readsNull = false)
    (hk : LastField m (loopLength size) tag k) :
    isSearch (parseHeader out h m size) m = true ↔ IsSearch out m (loopLength size) := by
  have huser := user_parseHeader out h m size
  have hfield : LastTag out h m tag (loopLength size) k := lastTag_iff.mpr hk
  have hmethod : (parseHeader out h m size).out.method = methodOf out m (loopLength size) := by
    rw [← method_of_field hfield.lt hfield.field.1]
    unfold parseHeader parseFinish
    split
    · rfl
    · split
      · rfl
      · next hok => exact method_testHeader hok
  have hman : ∀ s, (parseHeader out h m size).user.manStr = some s ↔
      ∃ k, LastField m (loopLength size) .man k ∧ k < s ∧ s < loopLength size ∧ ¬ Blank (m s) ∧
        ∀ j, k < j → j < s → Blank (m j) := by
    rw [huser]
    exact str_of_tag (Or.inr rfl) hread
  rw [isSearch, Bool.and_eq_true, beq_iff_eq, hmethod]
  refine and_congr_right fun _ => ?_
  cases hstr : (parseHeader out h m size).user.manStr with
  | none =>
    refine iff_of_false Bool.false_ne_true ?_
    rintro ⟨k, s, hk, hks, hsn, hs, hbefore, -⟩
    have hsome := (hman s).mpr ⟨k, hk, hks, hsn, hs, hbefore⟩
    rw [hstr] at hsome
    exact absurd hsome.symm (Option.some_ne_none s)
  | some s =>
    obtain ⟨k, hk, hks, hsn, hs, hbefore⟩ := (hman s).mp hstr
    constructor
    · exact fun hcmp => ⟨k, s, hk, hks, hsn, hs, hbefore, hcmp⟩
    · rintro ⟨k', s', hk', hks', hsn', hs', hbefore', hcmp⟩
      have hsome := (hman s').mpr ⟨k', hk', hks', hsn', hs', hbefore'⟩
      rw [hstr] at hsome
      rw [Option.some.inj hsome]
      exact hcmp

theorem loopLength_eq {k : Nat} (hk : k < loopLength size) : loopLength size = size.toNat := by
  unfold loopLength at *
  split
  · rfl
  · next hge =>
    rw [if_neg hge] at hk
    exact absurd hk (Nat.not_lt_zero k)

/-- The line of a field and the end that the handler has seen for its value. -/
theorem closed_value {k e s : Nat} (hlast : LastTag out h m .st (loopLength size) k) (hke : k < e)
    (hen : e < loopLength size) (hno : ∀ j, k < j → j < e → ¬ Ends (m j))
    (hnoted : Noted m k (e + 1) (some s))
    (hvalue : IsStHeader m size.toNat s (valueLen e s).toNat) :
    StLine m k s ∧ InHead m k ∧ m s ≠ chCr ∧ s < e - 1 ∧ m (e - 1) = chCr ∧ m e = chLf ∧
      (valueLen e s).toNat = e - 1 - s := by
  obtain ⟨hks, hse, hfirst, hblank⟩ := hnoted
  obtain ⟨⟨k', hstline, hhead⟩, htext, hends⟩ := hvalue
  have hsize := size.toNat_lt
  have hn := loopLength_lt size
  have hcolon : m k = chColon := hlast.field.1.2.1
  have hk : k' = k := colon_unique hstline.lt hks hstline.colon hcolon
    (fun j hkj hj => .inl (hstline.spaces j hkj hj)) hblank
  subst hk
  have hcr : m s ≠ chCr := fun hc => hfirst (.inr hc)
  have hlen := valueLen_toNat (hen.trans hn) (Nat.lt_succ_iff.mp hse)
  by_cases heq : s = e
  · -- the length of an empty value is wrapped around
    rw [if_pos heq] at hlen
    rw [hlen] at hends
    rcases hends with ⟨_, _, hlt⟩ | ⟨_, hlt, _⟩ <;> omega
  rw [if_neg heq] at hlen
  have hsum : s + (valueLen e s).toNat = e - 1 := by omega
  rw [hsum] at hends
  rcases hends with ⟨hc, hlf, _⟩ | ⟨hlf, _, _⟩
  · rw [show e - 1 + 1 = e by omega] at hlf
    refine ⟨hstline, hhead, hcr, ?_, hc, hlf, by omega⟩
    by_contra hge
    have hs1 : s = e - 1 := by omega
    rw [hs1] at hcr
    exact hcr hc
  · exact absurd (.inl hlf) (hno (e - 1) (by omega) (by omega))

theorem stands_of_matches {s : SsdpSocket} (hm : MatchesSearch s out h m size) :
    StStands s out m size := by
  have huser := user_parseHeader out h m size
  have hread : (parserAt out h m (loopLength size)).user.readsNull = false := by
    rw [← huser]
    exact hm.inside.1
  have hdelim := hm.delimits
  have hanswers := hm.answers
  rw [huser] at hdelim hanswers
  intro k hfield
  have hlast : LastTag out h m .st (loopLength size) k := lastTag_iff.mpr hfield
  have hn := loopLength_eq hlast.lt
  cases tagResult (Or.inl rfl) (loopLength size) hread with
  | never hno _ _ => exact absurd hlast.field (hno k hlast.lt)
  | within hlast' hline _ hnoted =>
    obtain rfl := hlast.unique hlast'
    change Noted m k _ (parserAt out h m (loopLength size)).user.stStr at hnoted
    cases hstr : (parserAt out h m (loopLength size)).user.stStr with
    | none =>
      rw [hstr] at hnoted
      exact .inl hnoted
    | some st =>
      rw [hstr] at hnoted
      have hks := hnoted.1
      have hends := (hdelim st hstr).ends
      rcases hends with ⟨_, hlf, hlt⟩ | ⟨hlf, hlt, _⟩
      · exact absurd (.inl hlf) (hline _ (by omega) (by omega))
      · exact absurd (.inl hlf) (hline _ (by omega) (by omega))
  | @closed k' e st hlast' hke hen hend hno _ hnoted hstr hlen =>
    obtain rfl := hlast.unique hlast'
    have hvalue := hdelim st hstr
    change (parserAt out h m (loopLength size)).user.stLen = _ at hlen
    rw [hlen] at hvalue
    obtain ⟨hline, hhead, hcr, hlt, hce, hle, hlen'⟩ := closed_value hlast hke hen hno hnoted hvalue
    have hks := hline.lt
    refine .inr ⟨st, e - 1, hline, hhead, hcr, hlt, hce, ?_, by omega, ?_, fun hsearch => ?_⟩
    · rw [show e - 1 + 1 = e by omega]
      exact hle
    · exact fun j hkj hj hlf => hno j hkj (by omega) (.inl hlf)
    · have hall := hanswers st hstr
      change (parserAt out h m (loopLength size)).user.stStr = some st at hstr
      rw [onPacket, huser, hstr] at hall
      dsimp only at hall
      rw [if_pos ((isSearch_iff hread hfield).mpr hsearch), hlen, hlen'] at hall
      refine (msearchResponses_asked_iff ?_ fun j hj => ?_).mp hall
      · rw [show st + (e - 1 - st) = e - 1 by omega]
        exact hce
      · exact fun hzero => hno (st + j) (by omega) (by omega) (.inr hzero)

/-- The value of the last field `ST`, where it stands as it should. -/
theorem value_of_stands {s : SsdpSocket} (hnuls : NulsEnd out h m (loopLength size))
    (hst : StStands s out m size) {st : Nat}
    (hstr : (parserAt out h m (loopLength size)).user.stStr = some st) :
    ∃ e, IsStHeader m size.toNat st (e - st) ∧
      (parserAt out h m (loopLength size)).user.stLen.toNat = e - st ∧ st < e ∧ m e = chCr ∧
      (∀ j, st ≤ j → j < e → m j ≠ 0) ∧
      (isSearch (parseHeader out h m size) m = true → TargetsStand s (m.window st (e - st))) := by
  have hread := (readsNull_iff _).mpr hnuls
  cases tagResult (Or.inl rfl) (loopLength size) hread with
  | never _ _ hnone => exact absurd (hnone.symm.trans hstr) (Option.some_ne_none st).symm
  | within hlast hline _ hnoted =>
    change Noted m _ _ (parserAt out h m (loopLength size)).user.stStr at hnoted
    rw [hstr] at hnoted
    rcases hst _ (lastTag_iff.mp hlast) with hblank | ⟨st', e, hstline, _, _, _, _, hle, hen, _, _⟩
    · exact absurd (hblank st hnoted.1 hnoted.2.1) hnoted.2.2.1
    · have hlt := hstline.lt
      exact absurd (.inl hle) (hline (e + 1) (by omega) hen)
  | @closed k e' st' hlast hke hen' hend hno _ hnoted hstr' hlen =>
    obtain rfl := Option.some.inj (hstr.symm.trans hstr')
    have hn := loopLength_eq hlast.lt
    rcases hst _ (lastTag_iff.mp hlast) with
      hblank | ⟨st', e, hstline, hhead, hcr, hlt, hce, hle, hen, hline, htargets⟩
    · exact absurd hend (not_ends_of_blank (hblank e' hke hen'))
    · have hks := hstline.lt
      have hbefore : ∀ j, k < j → j < st' → Blank (m j) := fun j hkj hj =>
        .inl (hstline.spaces j hkj hj)
      obtain rfl := noted_unique hnoted hks (fun hb => hb.elim hstline.first hcr) hbefore
      -- the first end of the value is the LF: a NUL before it would have that LF behind it
      have he : e' = e + 1 := by
        rcases Nat.lt_trichotomy e' (e + 1) with hlt' | heq | hgt
        · rcases hend with hlf | hzero
          · exact absurd hlf (hline e' hke (by omega))
          · have hcr' := hnuls k e' (e + 1) hlast.field.1 hke hlt' hen
              (fun j hkj hj => hline j hkj (by omega)) hzero
            rw [hle] at hcr'
            exact absurd hcr' (by decide)
        · exact heq
        · exact absurd (.inl hle) (hno (e + 1) (by omega) hgt)
      have hwidth := loopLength_lt size
      have hlen' := valueLen_toNat (e := e') (s := st) (by omega) (by omega)
      rw [if_neg (by omega)] at hlen'
      have hsum : st + (e - st) = e := by omega
      refine ⟨e, ⟨⟨k, hstline, hhead⟩, fun j hj hje => hline j (by omega) (by omega), ?_⟩, ?_, hlt,
        hce, ?_, fun hsearch => htargets ((isSearch_iff hread (lastTag_iff.mp hlast)).mp hsearch)⟩
      · rw [hsum]
        exact .inl ⟨hce, hle, by omega⟩
      · change (parserAt out h m (loopLength size)).user.stLen = _ at hlen
        rw [hlen, hlen']
        omega
      · exact fun j hj hje hzero => hno j (by omega) (by omega) (.inr hzero)

/-- The search is matched exactly when nothing but CR stands behind a NUL in a value, the last field
`ST` that is read is a plain line that ends with CR and LF, what its value begins, or is begun by,
is all of it, and a header `ST` is read where there is one. -/
theorem onPacket_matches_search (s : SsdpSocket) (out : BasicHeader) (h : MSearchHeader) (m : Memory)
    (size : UInt16) :
    MatchesSearch s out h m size ↔
      NulsLast m (loopLength size) ∧ StStands s out m size ∧ StIsRead m size := by
  have huser := user_parseHeader out h m size
  constructor
  · intro hm
    have hread : (parserAt out h m (loopLength size)).user.readsNull = false := by
      rw [← huser]
      exact hm.inside.1
    refine ⟨nulsEnd_iff.mp ((readsNull_iff _).mp hread), stands_of_matches hm, fun hex => ?_⟩
    have hsome := hm.finds hex
    rw [huser] at hsome
    exact (stStr_ne_none_iff hread).mp hsome
  · intro hstands
    obtain ⟨hlast, hst, hfound⟩ := hstands
    have hnuls : NulsEnd out h m (loopLength size) := nulsEnd_iff.mpr hlast
    have hread := (readsNull_iff _).mpr hnuls
    refine ⟨⟨?_, fun m' hm' => ?_⟩, ?_, ?_, ?_⟩
    · rw [huser]
      exact hread
    · have hle := loopLength_le size
      rw [parseHeader, parseHeader, parserAt_congr fun i hi => hm' i (hi.trans_le hle)]
    · rw [huser]
      intro st hstr
      obtain ⟨e, hvalue, hlen, -⟩ := value_of_stands hnuls hst hstr
      rw [hlen]
      exact hvalue
    · rw [huser]
      exact fun hex => (stStr_ne_none_iff hread).mpr (hfound hex)
    · intro st hstr
      rw [onPacket, hstr]
      rw [huser] at hstr ⊢
      obtain ⟨e, -, hlen, hlt, hce, hne, htargets⟩ := value_of_stands hnuls hst hstr
      dsimp only
      rw [hlen]
      by_cases hsearch : isSearch (parseHeader out h m size) m = true
      · rw [if_pos hsearch, msearchResponses_asked_iff]
        · exact htargets hsearch
        · rw [show st + (e - st) = e by omega]
          exact hce
        · exact fun j hj => hne (st + j) (by omega) (by omega)
      · rw [if_neg hsearch]
        exact fun r hr => absurd hr List.not_mem_nil

end

/-- A search for `uuid:`, which every uuid begins with. -/
def uuidSearch : List UInt8 :=
  ascii "M-SEARCH * HTTP/1.1\r\nMAN: \"ssdp:discover\"\r\nST: uuid:\r\n\r\n"

def uuidDevice : UPnPDevice := ⟨ascii "urn:a", ascii "uuid:1", []⟩

def clearHeader : MSearchHeader := ⟨.null, 0, none, none, 0, 0, false⟩
def clearOut : BasicHeader := ⟨.none, .none, .request, none, none, 0, 0⟩

theorem not_onPacket_matches_search : ¬ ∀ s out h m size, MatchesSearch s out h m size := by
  intro h
  have hm := h ⟨uuidDevice, []⟩ clearOut clearHeader (listMemory uuidSearch) 56
  have hst : (parseHeader clearOut clearHeader (listMemory uuidSearch) 56).user.stStr = some 47 := by
    decide +kernel
  have hr : (⟨ascii "uuid:1", none⟩ : Response) ∈
      onPacket ⟨uuidDevice, []⟩ clearOut clearHeader (listMemory uuidSearch) 56 := by
    decide +kernel
  rcases hm.answers 47 hst _ hr with hall | hroot | htarget
  · exact absurd hall (by decide +kernel)
  · exact absurd hroot (by decide +kernel)
  · exact absurd htarget (by decide +kernel)

end Ssdp

end MiMic.Net
