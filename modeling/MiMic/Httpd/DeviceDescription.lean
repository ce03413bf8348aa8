import MiMic.Httpd.Responder

/-!
# The device description

`writeDeviceDescription` writes the XML text of a device in formatted pieces. It passes NULL for
the counter of the services, so a device with services or with devices of its own is written
through a NULL pointer.
-/
namespace MiMic.Httpd

open Http

/-- `NyLPC_TUPnPDevDescIcon`. -/
structure DevDescIcon where
  mimetype : List UInt8
  width : Int16
  height : Int16
  depth : Int32
  url : List UInt8

/-- `NyLPC_TUPnPDevDescDevice`; what is optional or recommended may be NULL. Of the services and
of the devices in the device no more than the number is looked at. -/
structure DevDescDevice where
  deviceType : List UInt8
  frendlyName : List UInt8
  manufacturer : List UInt8
  manufacturerUrl : Option (List UInt8)
  modelDescriprion : Option (List UInt8)
  modelName : List UInt8
  modelNumber : Option (List UInt8)
  modelUrl : Option (List UInt8)
  serialNumber : Option (List UInt8)
  udn : List UInt8
  upc : Option (List UInt8)
  presentationUrl : Option (List UInt8)
  numberOfDevices : Int8
  numberOfService : Int8
  icons : List DevDescIcon

/-- A call of `sendResponseBodyF`: its format and what is passed for it. -/
abbrev FormattedBody := List UInt8 × List FormatArg

def whenGiven (fmt : String) : Option (List UInt8) → List FormattedBody
  | some s => [(ascii fmt, [.ptr s])]
  | none => []

def orEmpty (fmt empty : String) : Option (List UInt8) → FormattedBody
  | some s => (ascii fmt, [.ptr s])
  | none => (ascii empty, [])

def DevDescIcon.body (i : DevDescIcon) : FormattedBody :=
  (ascii "<icon><mimetype>%s</mimetype><width>%d</width><height>%d</height><depth>%d</depth><url>%s</url></icon>",
    [.ptr i.mimetype, .word i.width.toInt32.toUInt32, .word i.height.toInt32.toUInt32,
      .word i.depth.toUInt32, .ptr i.url])

def writeIcons : List DevDescIcon → List FormattedBody
  | [] => [(ascii "<iconList/>", [])]
  | icons => [(ascii "<iconList>", [])] ++ icons.map DevDescIcon.body ++ [(ascii "</iconList>", [])]

/-- `writeDeviceNode` as it is called, with NULL for `sidx`; `none` when it reads a number of a
service or counts a device through that pointer. -/
def writeDeviceNode (d : DevDescDevice) : Option (List FormattedBody) :=
  if d.numberOfService > 0 ∨ d.numberOfDevices > 0 then none
  else some <|
    [(ascii "<device><deviceType>%s</deviceType><friendlyName>%s</friendlyName><manufacturer>%s</manufacturer>",
      [.ptr d.deviceType, .ptr d.frendlyName, .ptr d.manufacturer])] ++
    whenGiven "<manufacturerURL>%s</manufacturerURL>" d.manufacturerUrl ++
    [orEmpty "<modelDescription>%s</modelDescription>" "<modelDescription/>" d.modelDescriprion] ++
    [(ascii "<modelName>%s</modelName>", [.ptr d.modelName])] ++
    [orEmpty "<modelNumber>%s</modelNumber>" "<modelNumber/>" d.modelNumber] ++
    whenGiven "<modelURL>%s</modelURL>" d.modelUrl ++
    [orEmpty "<serialNumber>%s</serialNumber>" "<serialNumber/>" d.serialNumber] ++
    [(ascii "<UDN>%s</UDN>", [.ptr d.udn])] ++
    whenGiven "<UPC>%s</UPC>" d.upc ++
    writeIcons d.icons ++
    [orEmpty "<presentationURL>%s</presentationURL></device>" "</device>" d.presentationUrl]

/-- `writeDeviceDescription`. -/
def writeDeviceDescription (d : DevDescDevice) : Option (List FormattedBody) :=
  (writeDeviceNode d).map fun node =>
    [(ascii "<?xml version=\"1.0\"?><root xmlns=\"urn:schemas-upnp-org:device-1-0\"><specVersion><major>1</major><minor>0</minor></specVersion>", [])] ++
      node ++ [(ascii "</root>", [])]

/-- Calls one after the other, whatever they return; `none` too where the format takes other
arguments. -/
def Responder.sendFormats (c : Responder) : List FormattedBody → Option Responder
  | [] => some c
  | call :: calls =>
      if h : (formatText call.1 call.2).isSome then
        (c.sendResponseBody (.format call.1 call.2 h)).bind fun r => r.1.sendFormats calls
      else none

def FormatArg.isPtr : FormatArg → Bool
  | .ptr _ => true
  | .word _ => false

/-- Of the conversions the format has `%s` and `%d` only, and the arguments are what these take. -/
def fitsFormat : List UInt8 → List Bool → Bool
  | [], _ => true
  | [c], _ => c != chPercent
  | c :: d :: cs, kinds =>
      if c = chPercent then
        match kinds with
        | true :: kinds => d == 0x73 && fitsFormat cs kinds
        | false :: kinds => d == 0x64 && fitsFormat cs kinds
        | [] => false
      else fitsFormat (d :: cs) kinds

theorem formatText_fits {fmt : List UInt8} {args : List FormatArg}
    (h : fitsFormat fmt (args.map FormatArg.isPtr) = true) : (formatText fmt args).isSome := by
  generalize hk : args.map FormatArg.isPtr = kinds at h
  rw [formatText]
  fun_induction fitsFormat fmt kinds generalizing args with
  | case1 kinds => rfl
  | case2 c kinds =>
    rw [textLoop_char (by simpa using h)]
    rfl
  | case3 d cs kinds ih =>
    obtain ⟨a, args, rfl, ha, rfl⟩ := List.map_eq_cons_iff.mp hk
    obtain ⟨hd, hrest⟩ := (Bool.and_eq_true _ _).mp h
    obtain rfl := beq_iff_eq.mp hd
    cases a with
    | word w => cases ha
    | ptr s =>
      change (textLoop .text (0x25 :: 0x73 :: cs) _).isSome = true
      rw [textLoop_percent, textLoop_s, Option.isSome_map]
      exact ih rfl hrest
  | case4 d cs kinds ih =>
    obtain ⟨a, args, rfl, ha, rfl⟩ := List.map_eq_cons_iff.mp hk
    obtain ⟨hd, hrest⟩ := (Bool.and_eq_true _ _).mp h
    obtain rfl := beq_iff_eq.mp hd
    cases a with
    | ptr s => cases ha
    | word w =>
      change (textLoop .text (0x25 :: 0x64 :: cs) _).isSome = true
      rw [textLoop_percent, textLoop_d, Option.isSome_map]
      exact ih rfl hrest
  | case5 d cs => cases h
  | case6 c d cs kinds hc ih =>
    rw [textLoop_char hc, Option.isSome_map]
    exact ih hk h

/-- The arguments are those of the format. -/
def WellTyped (call : FormattedBody) : Prop := (formatText call.1 call.2).isSome = true

theorem wellTyped_whenGiven {fmt : String} (h : fitsFormat (ascii fmt) [true] = true)
    (text : Option (List UInt8)) : ∀ call ∈ whenGiven fmt text, WellTyped call := by
  cases text with
  | none => exact fun _ hc => absurd hc List.not_mem_nil
  | some s => exact fun call hc => List.mem_singleton.mp hc ▸ formatText_fits h

theorem wellTyped_orEmpty {fmt empty : String}
    (h : (fitsFormat (ascii fmt) [true] && fitsFormat (ascii empty) []) = true)
    (text : Option (List UInt8)) : ∀ call ∈ [orEmpty fmt empty text], WellTyped call := by
  obtain ⟨hfmt, hempty⟩ := (Bool.and_eq_true _ _).mp h
  intro call hc
  obtain rfl := List.mem_singleton.mp hc
  cases text with
  | none => exact formatText_fits hempty
  | some s => exact formatText_fits hfmt

theorem wellTyped_one {fmt : List UInt8} {args : List FormatArg} (kinds : List Bool)
    (hk : args.map FormatArg.isPtr = kinds) (h : fitsFormat fmt kinds = true) :
    ∀ call ∈ [(fmt, args)], WellTyped call := by
  intro call hc
  obtain rfl := List.mem_singleton.mp hc
  exact formatText_fits (hk ▸ h)

theorem wellTyped_append {a b : List FormattedBody} (ha : ∀ call ∈ a, WellTyped call)
    (hb : ∀ call ∈ b, WellTyped call) : ∀ call ∈ a ++ b, WellTyped call :=
  fun call hc => (List.mem_append.mp hc).elim (ha call) (hb call)

theorem wellTyped_icons (icons : List DevDescIcon) : ∀ call ∈ writeIcons icons, WellTyped call := by
  cases icons with
  | nil => exact wellTyped_one [] rfl (by decide +kernel)
  | cons i is =>
    refine wellTyped_append (wellTyped_append (wellTyped_one [] rfl (by decide +kernel)) ?_)
      (wellTyped_one [] rfl (by decide +kernel))
    intro call hc
    obtain ⟨j, -, rfl⟩ := List.mem_map.mp hc
    exact wellTyped_one [true, false, false, false, true] rfl (by decide +kernel) _
      List.mem_cons_self

/-- A device without services and devices of its own is described, by calls that are all right. -/
theorem writeDeviceDescription_some {d : DevDescDevice} (hs : ¬ d.numberOfService > 0)
    (hd : ¬ d.numberOfDevices > 0) :
    ∃ calls, writeDeviceDescription d = some calls ∧ ∀ call ∈ calls, WellTyped call := by
  rw [writeDeviceDescription, writeDeviceNode, if_neg fun h => h.elim hs hd]
  refine ⟨_, rfl, wellTyped_append (wellTyped_append ?_ ?_) ?_⟩
  · exact wellTyped_one [] rfl (by decide +kernel)
  · refine wellTyped_append (wellTyped_append (wellTyped_append (wellTyped_append (wellTyped_append
      (wellTyped_append (wellTyped_append (wellTyped_append (wellTyped_append (wellTyped_append
        ?_ ?_) ?_) ?_) ?_) ?_) ?_) ?_) ?_) (wellTyped_icons _)) ?_
    · exact wellTyped_one [true, true, true] rfl (by decide +kernel)
    · exact wellTyped_whenGiven (by decide +kernel) _
    · exact wellTyped_orEmpty (by decide +kernel) _
    · exact wellTyped_one [true] rfl (by decide +kernel)
    · exact wellTyped_orEmpty (by decide +kernel) _
    · exact wellTyped_whenGiven (by decide +kernel) _
    · exact wellTyped_orEmpty (by decide +kernel) _
    · exact wellTyped_one [true] rfl (by decide +kernel)
    · exact wellTyped_whenGiven (by decide +kernel) _
    · exact wellTyped_orEmpty (by decide +kernel) _
  · exact wellTyped_one [] rfl (by decide +kernel)

/-- Calls whose arguments are those of their formats are calls of the body writer. -/
theorem sendFormats_wellTyped {calls : List FormattedBody} (h : ∀ call ∈ calls, WellTyped call) :
    ∃ bodies, ∀ c : Responder, c.sendFormats calls = c.sendAll bodies := by
  induction calls with
  | nil => exact ⟨[], fun c => rfl⟩
  | cons call calls ih =>
    have hcall : (formatText call.1 call.2).isSome := h call List.mem_cons_self
    obtain ⟨bodies, hbodies⟩ := ih fun other hother => h other (List.mem_cons_of_mem _ hother)
    refine ⟨.format call.1 call.2 hcall :: bodies, fun c => ?_⟩
    rw [Responder.sendFormats, dif_pos hcall, Responder.sendAll]
    simp only [hbodies]

end MiMic.Httpd
