import Proofmark.Evm.Bytes
import Proofmark.Evm.Execution

/-!
# Image containers

`web/lib/id-image.ts`, up to the decoder: the size, the type and the framing of an uploaded image. A
buffer with an offset is the bytes from the offset on, so a loop of the source is a function of what
is left.

A field of several bytes is read in one piece. Where the source would read past the end it raises a
`RangeError` of the runtime, or cuts the field; here both are one failure, and no call comes to it.
-/

open Evm

namespace Proofmark.Image

structure RequestGuardError where
  message : String
  status : ℕ
  deriving DecidableEq

inductive Failure
  | guard (e : RequestGuardError)
  /-- a field goes past the end of the buffer -/
  | range
  deriving DecidableEq

def invalid : Failure :=
  .guard ⟨"invalid image: use a complete, single-frame JPEG or PNG, " ++
    "at most 12 megapixels and 8192 pixels per side", 422⟩

/-- `policy.maxBytes` -/
def maxBytes : ℕ := 5242880

inductive ImageFormat
  | jpeg | png
  deriving DecidableEq

/-! ### Fields -/

/-- The next `n` bytes. -/
def field (bs : Bytes) (n : ℕ) : Except Failure Bytes :=
  if n ≤ bs.length then .ok (bs.take n) else .error .range

/-- `readUInt16BE` and `readUInt32BE` -/
def readUInt (bs : Bytes) (n : ℕ) : Except Failure ℕ :=
  (field bs n).map ofBytes

/-- What `toString('ascii')` makes of bytes: the top bit of each is cleared. -/
def clearTopBits (bs : Bytes) : Bytes :=
  bs.map (· &&& 0x7F)

/-! ### JPEG markers -/

/-- `RST0` to `RST7` -/
def isRestart (code : Byte) : Bool :=
  208 ≤ code.toNat && code.toNat ≤ 215

/-- `SOF0` and `SOF2` -/
def isFrame (code : Byte) : Bool :=
  code = 192 || code = 194

/-- The other frame types: lossless, hierarchical or arithmetic. -/
def otherFrames : List Byte :=
  [193, 195, 197, 198, 199, 201, 202, 203, 205, 206, 207]

/-- `MPF\0` -/
def mpf : Bytes :=
  [0x4D, 0x50, 0x46, 0x00]

/-- What the loop of `checkJpeg` carries: the bytes left, whether they are entropy-coded data, and
how many frames and scans were met. -/
structure JpegState where
  rest : Bytes
  scan : Bool
  frames : ℕ
  scans : ℕ

def skipFill (bs : Bytes) : Bytes :=
  bs.dropWhile (· = 0xFF)

def JpegState.framesWith (s : JpegState) (code : Byte) : ℕ :=
  if isFrame code then s.frames + 1 else s.frames

def JpegState.scansWith (s : JpegState) (code : Byte) : ℕ :=
  if code = 218 then s.scans + 1 else s.scans

/-- The four bytes that are compared with `MPF\0`, of an `APP2` segment that has them. -/
def segmentName (code : Byte) (length : ℕ) (rest : Bytes) : Except Failure Bytes :=
  if code = 226 ∧ 6 ≤ length then field (rest.drop 2) 4 else .ok []

/-- A segment whose code was read, with the bytes after the code. -/
def jpegSegment (s : JpegState) (code : Byte) (rest : Bytes) :
    Except Failure (Option JpegState) := do
  let length ← readUInt rest 2
  revertIf (length < 2 || rest.length < length) invalid
  revertIf (isFrame code && s.framesWith code ≠ 1) invalid
  revertIf (!isFrame code && code ∈ otherFrames) invalid
  let name ← segmentName code length rest
  revertIf (clearTopBits name = mpf) invalid
  revertIf (code = 218 && s.framesWith code ≠ 1) invalid
  return some ⟨rest.drop length, code = 218, s.framesWith code, s.scansWith code⟩

/-- What a code outside entropy-coded data does. `none` is the end of the image. -/
def jpegCode (s : JpegState) (code : Byte) (rest : Bytes) : Except Failure (Option JpegState) :=
  if code = 217 then
    if rest ≠ [] ∨ s.frames ≠ 1 ∨ s.scans < 1 then .error invalid else .ok none
  else if code = 0 ∨ code = 216 ∨ code = 1 ∨ isRestart code ∨ rest.length < 2 then .error invalid
  else jpegSegment s code rest

/-- A marker outside entropy-coded data. -/
def jpegMarker (s : JpegState) : Except Failure (Option JpegState) :=
  match s.rest with
  | [] => .error invalid
  | first :: tail =>
    if first ≠ 0xFF then .error invalid
    else
      match skipFill tail with
      | [] => .error invalid
      | code :: rest => jpegCode s code rest

/-- One round of the loop. -/
def jpegStep (s : JpegState) : Except Failure (Option JpegState) :=
  if s.scan then
    match s.rest.dropWhile (· ≠ 0xFF) with
    | [] => .error invalid
    | start :: tail =>
      match skipFill tail with
      | [] => jpegMarker { s with rest := start :: tail, scan := false }
      | code :: rest =>
        if code = 0 ∨ isRestart code then .ok (some { s with rest := rest })
        else jpegMarker { s with rest := start :: tail, scan := false }
  else jpegMarker s

/-! ### The loop ends -/

theorem length_skipFill_le (bs : Bytes) : (skipFill bs).length ≤ bs.length :=
  (List.dropWhile_sublist _).length_le

theorem jpegSegment_eq_ok {s : JpegState} {code : Byte} {rest : Bytes} {next : Option JpegState} :
    jpegSegment s code rest = .ok next ↔
      ∃ length, readUInt rest 2 = .ok length ∧ 2 ≤ length ∧ length ≤ rest.length ∧
        (isFrame code = true → s.framesWith code = 1) ∧
        (isFrame code = false → code ∉ otherFrames) ∧
        (∃ name, segmentName code length rest = .ok name ∧ clearTopBits name ≠ mpf) ∧
        (code = 218 → s.framesWith code = 1) ∧
        next = some ⟨rest.drop length, code = 218, s.framesWith code, s.scansWith code⟩ := by
  simp only [jpegSegment, bind_eq_ok, revertIf_eq_ok, exists_const, Bool.or_eq_false_iff,
    Bool.and_eq_false_iff, decide_eq_false_iff_not, not_lt, ne_eq, decide_not,
    Bool.not_eq_false', decide_eq_true_eq, pure, Except.pure, Except.ok.injEq]
  constructor
  · rintro ⟨length, hread, ⟨htwo, hfits⟩, hframe, hother, name, hname, hmpf, hscan, rfl⟩
    exact ⟨length, hread, htwo, hfits, fun h ↦ by simpa [h] using hframe,
      fun h ↦ by simpa [h] using hother, ⟨name, hname, hmpf⟩, fun h ↦ by simpa [h] using hscan,
      rfl⟩
  · rintro ⟨length, hread, htwo, hfits, hframe, hother, ⟨name, hname, hmpf⟩, hscan, rfl⟩
    refine ⟨length, hread, ⟨htwo, hfits⟩, ?_, ?_, name, hname, hmpf, ?_, rfl⟩
    · cases h : isFrame code with
      | true => exact .inr (hframe h)
      | false => exact .inl rfl
    · cases h : isFrame code with
      | true => exact .inl rfl
      | false => exact .inr (hother h)
    · by_cases h : code = 218
      · exact .inr (hscan h)
      · exact .inl h

theorem jpegSegment_lt {s s' : JpegState} {code : Byte} {rest : Bytes}
    (h : jpegSegment s code rest = .ok (some s')) : s'.rest.length < rest.length := by
  obtain ⟨length, -, htwo, hfits, -, -, -, -, hnext⟩ := jpegSegment_eq_ok.1 h
  cases hnext
  rw [List.length_drop]
  omega

theorem jpegCode_lt {s s' : JpegState} {code : Byte} {rest : Bytes}
    (h : jpegCode s code rest = .ok (some s')) : s'.rest.length < rest.length := by
  rw [jpegCode] at h
  split at h
  case isTrue => split at h <;> cases h
  case isFalse =>
    split at h
    case isTrue => cases h
    case isFalse => exact jpegSegment_lt h

theorem jpegMarker_lt {s s' : JpegState} (h : jpegMarker s = .ok (some s')) :
    s'.rest.length < s.rest.length := by
  rw [jpegMarker] at h
  rcases hrest : s.rest with - | ⟨first, tail⟩
  · rw [hrest] at h
    cases h
  · rw [hrest] at h
    simp only at h
    split at h
    case isTrue => cases h
    case isFalse =>
      have hle := length_skipFill_le tail
      rcases hskip : skipFill tail with - | ⟨code, rest⟩
      · rw [hskip] at h
        cases h
      · rw [hskip] at h hle
        have hlt := jpegCode_lt h
        rw [List.length_cons] at hle ⊢
        omega

/-- Every round consumes at least a byte. -/
theorem jpegStep_lt {s s' : JpegState} (h : jpegStep s = .ok (some s')) :
    s'.rest.length < s.rest.length := by
  rw [jpegStep] at h
  split at h
  case isFalse => exact jpegMarker_lt h
  case isTrue =>
    have hle := (List.dropWhile_sublist (fun b : Byte ↦ decide (b ≠ 0xFF)) (l := s.rest)).length_le
    rcases hstart : s.rest.dropWhile (· ≠ 0xFF) with - | ⟨start, tail⟩
    · rw [hstart] at h
      cases h
    · rw [hstart] at h hle
      simp only at h
      have hskip := length_skipFill_le tail
      rcases hcode : skipFill tail with - | ⟨code, rest⟩
      · rw [hcode] at h
        exact (jpegMarker_lt h).trans_le hle
      · rw [hcode] at h hskip
        simp only at h
        split at h
        case isTrue =>
          cases h
          rw [List.length_cons] at hle hskip
          show rest.length < _
          omega
        case isFalse => exact (jpegMarker_lt h).trans_le hle

/-- The `while` loop. -/
def jpegLoop (s : JpegState) : Except Failure Unit :=
  if s.rest = [] then .error invalid
  else
    match _h : jpegStep s with
    | .error e => .error e
    | .ok none => .ok ()
    | .ok (some s') => jpegLoop s'
termination_by s.rest.length
decreasing_by exact jpegStep_lt _h

def checkJpeg (b : Bytes) : Except Failure Unit :=
  if b.length < 4 ∨ b[0]? ≠ some 0xFF ∨ b[1]? ≠ some 0xD8 then .error invalid
  else jpegLoop ⟨b.drop 2, false, 0, 0⟩

/-! ### PNG chunks -/

def pngSignature : Bytes :=
  [137, 80, 78, 71, 13, 10, 26, 10]

/-- `acTL`, `fcTL` and `fdAT` -/
def animationKinds : List Bytes :=
  [ascii "acTL", ascii "fcTL", ascii "fdAT"]

/-- One round of the loop on chunks; `first` says that the offset is 8. `none` is the end. -/
def pngStep (first : Bool) (rest : Bytes) : Except Failure (Option Bytes) := do
  let length ← readUInt rest 4
  let name ← field (rest.drop 4) 4
  let kind := clearTopBits name
  revertIf (rest.length - 12 < length || kind ∈ animationKinds) invalid
  revertIf (first && (kind ≠ ascii "IHDR" || length ≠ 13)) invalid
  if kind = ascii "IEND" then
    revertIf (length ≠ 0 || rest.drop (length + 12) ≠ []) invalid
    return none
  else return some (rest.drop (length + 12))

theorem pngStep_eq_ok {first : Bool} {rest : Bytes} {next : Option Bytes} :
    pngStep first rest = .ok next ↔
      ∃ length name, readUInt rest 4 = .ok length ∧ field (rest.drop 4) 4 = .ok name ∧
        length ≤ rest.length - 12 ∧ clearTopBits name ∉ animationKinds ∧
        (first = true → clearTopBits name = ascii "IHDR" ∧ length = 13) ∧
        (clearTopBits name = ascii "IEND" ∧ length = 0 ∧ rest.drop (length + 12) = [] ∧
            next = none ∨
          clearTopBits name ≠ ascii "IEND" ∧ next = some (rest.drop (length + 12))) := by
  simp only [pngStep, bind_eq_ok, revertIf_eq_ok, exists_const, Bool.or_eq_false_iff,
    Bool.and_eq_false_iff, decide_eq_false_iff_not, not_lt, ne_eq, decide_not,
    Bool.not_eq_false', decide_eq_true_eq]
  refine exists_congr fun length ↦ ?_
  constructor
  · rintro ⟨hread, name, hname, ⟨hfits, hkind⟩, hfirst, hnext⟩
    refine ⟨name, hread, hname, hfits, hkind, fun h ↦ by simpa [h] using hfirst, ?_⟩
    split at hnext
    case isTrue h =>
      simp only [bind_eq_ok, revertIf_eq_ok, exists_const, Bool.or_eq_false_iff,
        Bool.not_eq_false', decide_eq_true_eq, pure, Except.pure, Except.ok.injEq] at hnext
      exact .inl ⟨h, hnext.1.1, hnext.1.2, hnext.2.symm⟩
    case isFalse h => exact .inr ⟨h, (Except.ok.inj hnext).symm⟩
  · rintro ⟨name, hread, hname, hfits, hkind, hfirst, hnext⟩
    refine ⟨hread, name, hname, ⟨hfits, hkind⟩, ?_, ?_⟩
    · cases first with
      | true => exact .inr (hfirst rfl)
      | false => exact .inl rfl
    · rcases hnext with ⟨h, rfl, hrest, rfl⟩ | ⟨h, rfl⟩
      · rw [if_pos h]
        simp [hrest, revertIf, bind, Except.bind, pure, Except.pure]
      · rw [if_neg h]
        rfl

theorem pngStep_lt {first : Bool} {rest rest' : Bytes} (hrest : 12 ≤ rest.length)
    (h : pngStep first rest = .ok (some rest')) : rest'.length < rest.length := by
  obtain ⟨length, name, -, -, -, -, -, hnext⟩ := pngStep_eq_ok.1 h
  rcases hnext with ⟨-, -, -, hnext⟩ | ⟨-, hnext⟩
  · cases hnext
  · cases hnext
    rw [List.length_drop]
    omega

def pngLoop (first : Bool) (rest : Bytes) : Except Failure Unit :=
  if _hrest : 12 ≤ rest.length then
    match _h : pngStep first rest with
    | .error e => .error e
    | .ok none => .ok ()
    | .ok (some rest') => pngLoop false rest'
  else .error invalid
termination_by rest.length
decreasing_by exact pngStep_lt _hrest _h

def checkPng (b : Bytes) : Except Failure Unit :=
  if b.length < 33 ∨ b.take 8 ≠ pngSignature then .error invalid
  else pngLoop true (b.drop 8)

/-! ### The check -/

def checkContainer (input : Bytes) (mime : String) : Except Failure ImageFormat :=
  if input.length = 0 then .error (.guard ⟨"image is required", 400⟩)
  else if maxBytes < input.length then .error (.guard ⟨"image must be 5 MiB or smaller", 413⟩)
  else if mime ≠ "image/jpeg" ∧ mime ≠ "image/png" then
    .error (.guard ⟨"only image/jpeg and image/png are supported", 415⟩)
  else if mime = "image/jpeg" then (checkJpeg input).map fun _ ↦ .jpeg
  else (checkPng input).map fun _ ↦ .png

end Proofmark.Image
