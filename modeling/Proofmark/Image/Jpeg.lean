import Proofmark.Image.Container

/-!
# The framing of a JPEG file

A JPEG file is the start marker, segments and the end marker. A segment has a code, a length and
its payload; after the one that starts a scan comes entropy-coded data, in which a `0xFF` is
followed by a zero or a restart code.

The loop reads the segments of a file one after the other and asks of each what `Fits` says
(`jpegLoop_segments`), and what it accepts is a list of segments (`exists_segments`). How the name
of an `APP2` segment is read is a parameter of the format: the source reads it without top bits.
-/

open Evm

namespace Proofmark.Image

/-! ### The format -/

/-- `0xFF`, fill bytes and a code. -/
def marker (fill : ℕ) (code : Byte) : Bytes :=
  List.replicate (fill + 1) 0xFF ++ [code]

/-- Entropy-coded data, with restart markers. -/
inductive Entropy : Bytes → Prop
  | nil : Entropy []
  | byte {b : Byte} {e : Bytes} (hb : b ≠ 0xFF) (h : Entropy e) : Entropy (b :: e)
  | escaped {fill : ℕ} {code : Byte} {e : Bytes} (hcode : code = 0 ∨ isRestart code = true)
      (h : Entropy e) : Entropy (marker fill code ++ e)

/-- A marker segment and the entropy-coded data behind it. -/
structure Segment where
  fill : ℕ
  code : Byte
  payload : Bytes
  entropy : Bytes

/-- The length field counts itself. -/
def Segment.bytes (x : Segment) : Bytes :=
  marker x.fill x.code ++ (toBytes 2 (x.payload.length + 2) ++ (x.payload ++ x.entropy))

/-- `TEM`, `SOI`, `EOI` and the restart markers have no segment. -/
def standsAlone (code : Byte) : Bool :=
  code = 1 || code = 216 || code = 217 || isRestart code

/-- A code outside entropy-coded data. -/
structure IsCode (code : Byte) : Prop where
  ne_fill : code ≠ 0xFF
  ne_zero : code ≠ 0
  not_restart : isRestart code = false

structure Segment.Formed (x : Segment) : Prop where
  isCode : IsCode x.code
  standsAlone : standsAlone x.code = false
  length_lt : x.payload.length + 2 < 2 ^ 16
  entropy : x.code = 218 → Entropy x.entropy
  no_entropy : x.code ≠ 218 → x.entropy = []

/-- The segment is an `APP2` named `MPF\0`, as its name is read. -/
def Segment.IsMpf (read : Bytes → Bytes) (x : Segment) : Prop :=
  x.code = 226 ∧ read (x.payload.take 4) = mpf

/-- The segments of a single picture: one frame of an admitted type and no other, and at least one
scan, after it. -/
structure Framed (read : Bytes → Bytes) (segments : List Segment) : Prop where
  formed : ∀ x ∈ segments, x.Formed
  frame : (segments.filter fun x ↦ isFrame x.code).length = 1
  no_other : ∀ x ∈ segments, x.code ∉ otherFrames
  scan : ∃ x ∈ segments, x.code = 218
  order : ∀ before x after, segments = before ++ x :: after → x.code = 218 →
    ∃ y ∈ before, isFrame y.code = true
  not_mpf : ∀ x ∈ segments, ¬x.IsMpf read

def jpegBytes (segments : List Segment) (fill : ℕ) : Bytes :=
  [0xFF, 0xD8] ++ (segments.flatMap Segment.bytes ++ marker fill 0xD9)

/-- The bytes are a JPEG file of a single picture. -/
def JpegFraming (read : Bytes → Bytes) (b : Bytes) : Prop :=
  ∃ segments fill, b = jpegBytes segments fill ∧ Framed read segments

/-! ### What the loop asks of the segments -/

/-- The conditions on the segments that are left after `frames` frames and `scans` scans. -/
def Fits (read : Bytes → Bytes) : ℕ → ℕ → List Segment → Prop
  | frames, scans, [] => frames = 1 ∧ 1 ≤ scans
  | frames, scans, x :: rest =>
    (isFrame x.code = true → frames = 0) ∧ x.code ∉ otherFrames ∧ ¬x.IsMpf read ∧
      (x.code = 218 → frames = 1) ∧
      Fits read (if isFrame x.code then frames + 1 else frames)
        (if x.code = 218 then scans + 1 else scans) rest

theorem scan_not_frame : isFrame 218 = false := rfl

theorem fits_iff {read : Bytes → Bytes} {segments : List Segment} {frames scans : ℕ} :
    Fits read frames scans segments ↔
      frames + (segments.filter fun x ↦ isFrame x.code).length = 1 ∧
        (∀ x ∈ segments, x.code ∉ otherFrames) ∧ (1 ≤ scans ∨ ∃ x ∈ segments, x.code = 218) ∧
        (∀ before x after, segments = before ++ x :: after → x.code = 218 →
          frames + (before.filter fun y ↦ isFrame y.code).length = 1) ∧
        ∀ x ∈ segments, ¬x.IsMpf read := by
  induction segments generalizing frames scans with
  | nil => simp [Fits]
  | cons x rest ih =>
    rw [Fits, ih]
    constructor
    · rintro ⟨hframe, hother, hmpf, hscan, hcount, hothers, hscans, horder, hmpfs⟩
      refine ⟨?_, List.forall_mem_cons.2 ⟨hother, hothers⟩, ?_, ?_,
        List.forall_mem_cons.2 ⟨hmpf, hmpfs⟩⟩
      · rw [List.filter_cons]
        split at hcount <;> simp_all
      · by_cases hx : x.code = 218
        · exact .inr ⟨x, List.mem_cons_self, hx⟩
        · rw [if_neg hx] at hscans
          exact hscans.imp_right fun ⟨y, hy, hscan⟩ ↦ ⟨y, List.mem_cons_of_mem _ hy, hscan⟩
      · intro before y after heq hy
        cases before with
        | nil =>
          obtain ⟨rfl, rfl⟩ := List.cons.inj heq
          simpa using hscan hy
        | cons x' before =>
          obtain ⟨rfl, rfl⟩ := List.cons.inj heq
          have := horder before y after rfl hy
          rw [List.filter_cons]
          split at this <;> simp_all
    · rintro ⟨hcount, hothers, hscans, horder, hmpfs⟩
      obtain ⟨hother, hothers⟩ := List.forall_mem_cons.1 hothers
      obtain ⟨hmpf, hmpfs⟩ := List.forall_mem_cons.1 hmpfs
      rw [List.filter_cons] at hcount
      refine ⟨fun hx ↦ ?_, hother, hmpf, fun hx ↦ ?_, ?_, hothers, ?_, ?_, hmpfs⟩
      · rw [if_pos hx, List.length_cons] at hcount
        omega
      · simpa using horder [] x rest rfl hx
      · split at hcount <;> simp_all
        omega
      · rcases hscans with hscans | ⟨y, hy, hscan⟩
        · left
          split <;> omega
        · rcases List.mem_cons.1 hy with rfl | hy
          · left
            rw [if_pos hscan]
            omega
          · exact .inr ⟨y, hy, hscan⟩
      · intro before y after heq hy
        have := horder (x :: before) y after (by rw [heq]; rfl) hy
        rw [List.filter_cons] at this
        split at this <;> simp_all
        omega

theorem framed_iff {read : Bytes → Bytes} {segments : List Segment} :
    Framed read segments ↔ (∀ x ∈ segments, x.Formed) ∧ Fits read 0 0 segments := by
  rw [fits_iff]
  constructor
  · rintro ⟨hformed, hframe, hother, hscan, horder, hmpf⟩
    refine ⟨hformed, by omega, hother, .inr hscan, fun before x after heq hx ↦ ?_, hmpf⟩
    obtain ⟨y, hy, hframe'⟩ := horder before x after heq hx
    have hpos : 0 < (before.filter fun y ↦ isFrame y.code).length :=
      List.length_pos_of_mem (List.mem_filter.2 ⟨hy, hframe'⟩)
    rw [heq, List.filter_append, List.length_append] at hframe
    omega
  · rintro ⟨hformed, hframe, hother, hscan, horder, hmpf⟩
    refine ⟨hformed, by omega, hother, hscan.resolve_left (by omega),
      fun before x after heq hx ↦ ?_, hmpf⟩
    have hone := horder before x after heq hx
    obtain ⟨y, hy⟩ := List.exists_mem_of_length_pos (l := before.filter fun y ↦ isFrame y.code)
      (by omega)
    exact ⟨y, (List.mem_filter.1 hy).1, (List.mem_filter.1 hy).2⟩

/-! ### The loop on segments -/

theorem skipFill_replicate {n : ℕ} {code : Byte} (hcode : code ≠ 0xFF) (rest : Bytes) :
    skipFill (List.replicate n 0xFF ++ code :: rest) = code :: rest := by
  induction n with
  | zero => exact List.dropWhile_cons_of_neg (by simpa using hcode)
  | succ n ih =>
    rw [List.replicate_succ, List.cons_append, skipFill, List.dropWhile_cons_of_pos (by simp)]
    exact ih

/-- A marker is read with its fill bytes. -/
theorem jpegMarker_marker {s : JpegState} {fill : ℕ} {code : Byte} (hcode : code ≠ 0xFF)
    {rest : Bytes} (h : s.rest = marker fill code ++ rest) :
    jpegMarker s = jpegCode s code rest := by
  have hrest : s.rest = 0xFF :: (List.replicate fill 0xFF ++ code :: rest) := by
    rw [h, marker, List.replicate_succ, List.append_assoc]
    rfl
  simp only [jpegMarker, hrest, ne_eq, not_true_eq_false, if_false, skipFill_replicate hcode]

theorem exists_marker_of_skipFill {bs rest : Bytes} {code : Byte} (h : skipFill bs = code :: rest) :
    code ≠ 0xFF ∧ ∃ n, bs = List.replicate n 0xFF ++ code :: rest := by
  induction bs with
  | nil => cases h
  | cons b bs ih =>
    by_cases hb : b = 0xFF
    · rw [skipFill, List.dropWhile_cons_of_pos (by simpa using hb)] at h
      obtain ⟨hcode, n, hbs⟩ := ih h
      exact ⟨hcode, n + 1, by rw [hb, hbs, List.replicate_succ, List.cons_append]⟩
    · rw [skipFill, List.dropWhile_cons_of_neg (by simpa using hb)] at h
      obtain ⟨rfl, rfl⟩ := List.cons.inj h
      exact ⟨hb, 0, rfl⟩

theorem marker_append (fill : ℕ) (code : Byte) (rest : Bytes) :
    marker fill code ++ rest = 0xFF :: (List.replicate fill 0xFF ++ code :: rest) := by
  rw [marker, List.replicate_succ, List.append_assoc]
  rfl

theorem exists_marker_of_jpegMarker {s : JpegState} {next : Option JpegState}
    (h : jpegMarker s = .ok next) : ∃ fill code rest, s.rest = marker fill code ++ rest ∧
      code ≠ 0xFF ∧ jpegCode s code rest = .ok next := by
  rw [jpegMarker] at h
  rcases hrest : s.rest with - | ⟨first, tail⟩
  · rw [hrest] at h
    cases h
  · rw [hrest] at h
    simp only at h
    split at h
    case isTrue => cases h
    case isFalse hfirst =>
      rcases hskip : skipFill tail with - | ⟨code, rest⟩
      · rw [hskip] at h
        cases h
      · rw [hskip] at h
        obtain ⟨hcode, n, htail⟩ := exists_marker_of_skipFill hskip
        exact ⟨n, code, rest, by rw [marker_append, not_not.1 hfirst, htail], hcode, h⟩

theorem jpegLoop_eq {s : JpegState} (hs : s.rest ≠ []) :
    jpegLoop s = match jpegStep s with
      | .error e => .error e
      | .ok none => .ok ()
      | .ok (some s') => jpegLoop s' := by
  rw [jpegLoop, if_neg hs]
  split <;> simp_all

theorem jpegStep_of_not_scan {s : JpegState} (h : s.scan = false) : jpegStep s = jpegMarker s := by
  rw [jpegStep, h, if_neg Bool.false_ne_true]

theorem jpegLoop_congr {s t : JpegState} (hs : s.rest ≠ []) (ht : t.rest ≠ [])
    (h : jpegStep s = jpegStep t) : jpegLoop s = jpegLoop t := by
  rw [jpegLoop_eq hs, jpegLoop_eq ht, h]

/-- In entropy-coded data a marker that is no part of it ends the scan. -/
theorem jpegStep_marker {fill : ℕ} {code : Byte} (hcode : IsCode code) (rest : Bytes)
    (frames scans : ℕ) :
    jpegStep ⟨marker fill code ++ rest, true, frames, scans⟩ =
      jpegStep ⟨marker fill code ++ rest, false, frames, scans⟩ := by
  have hstop : (0xFF :: (List.replicate fill 0xFF ++ code :: rest)).dropWhile (· ≠ 0xFF) =
      0xFF :: (List.replicate fill 0xFF ++ code :: rest) :=
    List.dropWhile_cons_of_neg (by simp)
  have hnot : ¬(code = 0 ∨ isRestart code = true) := by
    rintro (h | h)
    · exact hcode.ne_zero h
    · rw [hcode.not_restart] at h
      cases h
  rw [marker_append]
  simp only [jpegStep, if_true, hstop, skipFill_replicate hcode.ne_fill, if_neg hnot,
    Bool.false_eq_true, if_false]

theorem jpegStep_escaped {fill : ℕ} {code : Byte} (hcode : code = 0 ∨ isRestart code = true)
    (rest : Bytes) (frames scans : ℕ) :
    jpegStep ⟨marker fill code ++ rest, true, frames, scans⟩ =
      .ok (some ⟨rest, true, frames, scans⟩) := by
  have hfill : code ≠ 0xFF := by
    rintro rfl
    rcases hcode with h | h <;> cases h
  have hstop : (marker fill code ++ rest).dropWhile (· ≠ 0xFF) =
      0xFF :: (List.replicate fill 0xFF ++ code :: rest) := by
    rw [marker_append]
    exact List.dropWhile_cons_of_neg (by simp)
  simp only [jpegStep, if_true, hstop, skipFill_replicate hfill, if_pos hcode]

/-- **Entropy-coded data is passed over**, up to the next marker. -/
theorem jpegLoop_entropy {e : Bytes} (he : Entropy e) {fill : ℕ} {code : Byte}
    (hcode : IsCode code) (rest : Bytes) (frames scans : ℕ) :
    jpegLoop ⟨e ++ (marker fill code ++ rest), true, frames, scans⟩ =
      jpegLoop ⟨marker fill code ++ rest, false, frames, scans⟩ := by
  have hne : ∀ e : Bytes, e ++ (marker fill code ++ rest) ≠ [] := fun e h ↦ by
    rw [marker_append] at h
    simp at h
  induction he with
  | nil => exact jpegLoop_congr (hne []) (hne []) (jpegStep_marker hcode rest frames scans)
  | @byte b e hb _ ih =>
    rw [← ih]
    refine jpegLoop_congr (hne (b :: e)) (hne e) ?_
    have hdrop : (b :: (e ++ (marker fill code ++ rest))).dropWhile (· ≠ 0xFF) =
        (e ++ (marker fill code ++ rest)).dropWhile (· ≠ 0xFF) :=
      List.dropWhile_cons_of_pos (by simpa using hb)
    simp only [jpegStep, if_true, List.cons_append, hdrop]
  | @escaped fill' code' e hcode' _ ih =>
    rw [← ih, List.append_assoc, jpegLoop_eq, jpegStep_escaped hcode']
    rw [marker_append]
    exact List.cons_ne_nil _ _

theorem field_append {bs rest : Bytes} {n : ℕ} (h : bs.length = n) :
    field (bs ++ rest) n = .ok bs := by
  rw [field, if_pos (by rw [List.length_append]; omega), List.take_left' h]

theorem readUInt_append {n v : ℕ} (hv : v < 256 ^ n) (rest : Bytes) :
    readUInt (toBytes n v ++ rest) n = .ok v := by
  rw [readUInt, field_append (length_toBytes n v), Except.map, ofBytes_toBytes, Nat.mod_eq_of_lt hv]

/-- A name that is not `MPF\0` when there is none to read. -/
theorem segmentName_payload (x : Segment) (rest : Bytes) :
    ∃ name, segmentName x.code (x.payload.length + 2)
        (toBytes 2 (x.payload.length + 2) ++ (x.payload ++ rest)) = .ok name ∧
      (clearTopBits name ≠ mpf ↔ ¬x.IsMpf clearTopBits) := by
  rw [segmentName]
  split
  case isTrue h =>
    refine ⟨x.payload.take 4, ?_, by simp [Segment.IsMpf, h.1]⟩
    rw [List.drop_left' (length_toBytes _ _), field, if_pos (by rw [List.length_append]; omega),
      List.take_append_of_le_length (by omega)]
  case isFalse h =>
    refine ⟨[], rfl, iff_of_true (by decide) ?_⟩
    rintro ⟨hcode, hname⟩
    have hlength := congrArg List.length hname
    rw [clearTopBits, List.length_map, List.length_take, show mpf.length = 4 from rfl] at hlength
    exact h ⟨hcode, by omega⟩

/-- **A segment is read** exactly when it fits. -/
theorem jpegCode_segment {x : Segment} (hx : x.Formed) {s : JpegState} {rest : Bytes}
    {next : Option JpegState} :
    jpegCode s x.code (toBytes 2 (x.payload.length + 2) ++ (x.payload ++ rest)) = .ok next ↔
      ((isFrame x.code = true → s.frames = 0) ∧ x.code ∉ otherFrames ∧
        ¬x.IsMpf clearTopBits ∧ (x.code = 218 → s.frames = 1)) ∧
        next = some ⟨rest, x.code = 218, s.framesWith x.code, s.scansWith x.code⟩ := by
  have halone := hx.standsAlone
  simp only [standsAlone, Bool.or_eq_false_iff, decide_eq_false_iff_not] at halone
  obtain ⟨⟨⟨hone, hstart⟩, hend⟩, hrestart⟩ := halone
  have hlength : ¬(toBytes 2 (x.payload.length + 2) ++ (x.payload ++ rest)).length < 2 := by
    rw [List.length_append, length_toBytes]
    omega
  have hread := readUInt_append (n := 2) hx.length_lt (x.payload ++ rest)
  obtain ⟨name, hname, hmpf⟩ := segmentName_payload x rest
  have hdrop : (toBytes 2 (x.payload.length + 2) ++ (x.payload ++ rest)).drop
      (x.payload.length + 2) = rest := by
    rw [← List.append_assoc]
    exact List.drop_left' (by rw [List.length_append, length_toBytes]; omega)
  have hscan : x.code = 218 → isFrame x.code = false := fun h ↦ by rw [h]; rfl
  have hother : isFrame x.code = true → x.code ∉ otherFrames := by
    rw [isFrame, Bool.or_eq_true, decide_eq_true_eq, decide_eq_true_eq]
    rintro (h | h) <;> rw [h] <;> decide
  rw [jpegCode, if_neg hend, if_neg (by
    rintro (h | h | h | h | h)
    · exact hx.isCode.ne_zero h
    · exact hstart h
    · exact hone h
    · rw [hrestart] at h
      cases h
    · exact hlength h), jpegSegment_eq_ok]
  constructor
  · rintro ⟨length, hlen, -, -, hframe, hothers, ⟨name', hname', hmpf'⟩, hscans, rfl⟩
    obtain rfl := Except.ok.inj (hread.symm.trans hlen)
    obtain rfl := Except.ok.inj (hname.symm.trans hname')
    refine ⟨⟨fun h ↦ ?_, ?_, hmpf.1 hmpf', fun h ↦ ?_⟩, by rw [hdrop]⟩
    · have := hframe h
      rw [JpegState.framesWith, if_pos h] at this
      omega
    · cases h : isFrame x.code with
      | true => exact hother h
      | false => exact hothers h
    · have := hscans h
      rwa [JpegState.framesWith, hscan h] at this
  · rintro ⟨⟨hframe, hothers, hnot, hscans⟩, rfl⟩
    refine ⟨_, hread, by omega, by simp; omega, fun h ↦ ?_, fun _ ↦ hothers,
      ⟨name, hname, hmpf.2 hnot⟩, fun h ↦ ?_, by rw [hdrop]⟩
    · rw [JpegState.framesWith, if_pos h, hframe h]
    · rw [JpegState.framesWith, hscan h]
      exact hscans h

/-- What follows a segment begins with a marker. -/
theorem exists_next_marker {segments : List Segment} (h : ∀ x ∈ segments, x.Formed) (fill : ℕ)
    (tail : Bytes) : ∃ fill' code rest, IsCode code ∧
      segments.flatMap Segment.bytes ++ (marker fill 217 ++ tail) = marker fill' code ++ rest := by
  cases segments with
  | nil => exact ⟨fill, 217, tail, ⟨by decide, by decide, by decide⟩, rfl⟩
  | cons x rest =>
    refine ⟨x.fill, x.code, toBytes 2 (x.payload.length + 2) ++ (x.payload ++ (x.entropy ++
      (rest.flatMap Segment.bytes ++ (marker fill 217 ++ tail)))),
      (h x List.mem_cons_self).isCode, ?_⟩
    simp only [List.flatMap_cons, Segment.bytes, List.append_assoc]

/-- **The loop on segments**: it accepts them when they fit and nothing follows the end marker. -/
theorem jpegLoop_segments {segments : List Segment} (h : ∀ x ∈ segments, x.Formed) (fill : ℕ)
    (tail : Bytes) (frames scans : ℕ) :
    jpegLoop ⟨segments.flatMap Segment.bytes ++ (marker fill 217 ++ tail), false, frames, scans⟩ =
        .ok () ↔
      Fits clearTopBits frames scans segments ∧ tail = [] := by
  induction segments generalizing frames scans with
  | nil =>
    have hstep : jpegStep ⟨marker fill 217 ++ tail, false, frames, scans⟩ =
        jpegCode ⟨marker fill 217 ++ tail, false, frames, scans⟩ 217 tail := by
      rw [jpegStep_of_not_scan rfl]
      exact jpegMarker_marker (by decide) rfl
    rw [List.flatMap_nil, List.nil_append, jpegLoop_eq (by rw [marker_append]; rintro ⟨⟩), hstep,
      jpegCode, if_pos rfl, Fits]
    by_cases hbad : tail ≠ [] ∨ frames ≠ 1 ∨ scans < 1
    · rw [if_pos hbad]
      refine iff_of_false (by rintro ⟨⟩) ?_
      rintro ⟨⟨hframes, hscans⟩, htail⟩
      rcases hbad with hbad | hbad | hbad
      · exact hbad htail
      · exact hbad hframes
      · omega
    · rw [if_neg hbad]
      simp only [ne_eq, not_or, not_not, not_lt] at hbad
      exact iff_of_true rfl ⟨⟨hbad.2.1, hbad.2.2⟩, hbad.1⟩
  | cons x rest ih =>
    obtain ⟨hx, hrest⟩ := List.forall_mem_cons.1 h
    obtain ⟨fill', code', tail', hcode', hnext⟩ := exists_next_marker hrest fill tail
    replace ih := ih hrest
    generalize hbytes : rest.flatMap Segment.bytes ++ (marker fill 217 ++ tail) = behind at ih hnext
    have hall : (x :: rest).flatMap Segment.bytes ++ (marker fill 217 ++ tail) =
        marker x.fill x.code ++ (toBytes 2 (x.payload.length + 2) ++ (x.payload ++
          (x.entropy ++ behind))) := by
      simp only [← hbytes, List.flatMap_cons, Segment.bytes, List.append_assoc]
    -- the entropy-coded data of the segment is passed over
    have hbehind : ∀ frames scans,
        jpegLoop ⟨x.entropy ++ behind, x.code = 218, frames, scans⟩ =
          jpegLoop ⟨behind, false, frames, scans⟩ := fun frames scans ↦ by
      by_cases hscan : x.code = 218
      · rw [hnext, decide_eq_true hscan]
        exact jpegLoop_entropy (hx.entropy hscan) hcode' _ _ _
      · rw [hx.no_entropy hscan, decide_eq_false hscan, List.nil_append]
    rw [hall, jpegLoop_eq (by rw [marker_append]; rintro ⟨⟩), jpegStep_of_not_scan rfl,
      jpegMarker_marker hx.isCode.ne_fill rfl, Fits]
    generalize hs : JpegState.mk _ false frames scans = s
    have hframes : s.frames = frames := by rw [← hs]
    have hscans : s.scans = scans := by rw [← hs]
    have hread : ∀ next, jpegCode s x.code (toBytes 2 (x.payload.length + 2) ++ (x.payload ++
        (x.entropy ++ behind))) = .ok next ↔ _ := fun next ↦ jpegCode_segment hx
    rw [hframes] at hread
    rcases hcode : jpegCode s x.code (toBytes 2 (x.payload.length + 2) ++ (x.payload ++
      (x.entropy ++ behind))) with e | next
    · refine iff_of_false (by rintro ⟨⟩) ?_
      rintro ⟨⟨hframe, hother, hmpf, hscan, -⟩, -⟩
      have := (hread _).2 ⟨⟨hframe, hother, hmpf, hscan⟩, rfl⟩
      rw [hcode] at this
      cases this
    · obtain ⟨⟨hframe, hother, hmpf, hscan⟩, rfl⟩ := (hread next).1 hcode
      simp only [hbehind, ih, JpegState.framesWith, JpegState.scansWith, hframes, hscans]
      constructor
      · rintro ⟨hfits, htail⟩
        exact ⟨⟨hframe, hother, hmpf, hscan, hfits⟩, htail⟩
      · rintro ⟨⟨-, -, -, -, hfits⟩, htail⟩
        exact ⟨hfits, htail⟩

/-! ### What the loop accepts is segments -/

theorem Entropy.append_plain {pre e : Bytes} (hpre : ∀ b ∈ pre, b ≠ 0xFF) (he : Entropy e) :
    Entropy (pre ++ e) := by
  induction pre with
  | nil => exact he
  | cons b pre ih =>
    obtain ⟨hb, hpre⟩ := List.forall_mem_cons.1 hpre
    exact .byte hb (ih hpre)

/-- What a code does is the end of the file or a segment. -/
theorem shape_of_jpegCode {s : JpegState} {code : Byte} {rest : Bytes} {next : Option JpegState}
    (hfill : code ≠ 0xFF) (h : jpegCode s code rest = .ok next) :
    code = 217 ∧ rest = [] ∧ next = none ∨
      ∃ payload rest' frames scans, IsCode code ∧ standsAlone code = false ∧
        payload.length + 2 < 2 ^ 16 ∧
        rest = toBytes 2 (payload.length + 2) ++ (payload ++ rest') ∧
        next = some ⟨rest', code = 218, frames, scans⟩ := by
  rw [jpegCode] at h
  split at h
  case isTrue hend =>
    split at h
    case isTrue => cases h
    case isFalse hgood =>
      simp only [ne_eq, not_or, not_not] at hgood
      exact .inl ⟨hend, hgood.1, (Except.ok.inj h).symm⟩
  case isFalse hend =>
    split at h
    case isTrue => cases h
    case isFalse hcode =>
      simp only [not_or, not_lt, Bool.not_eq_true] at hcode
      obtain ⟨hzero, hstart, hone, hrestart, htwo⟩ := hcode
      obtain ⟨length, hread, hmin, hmax, -, -, -, -, rfl⟩ := jpegSegment_eq_ok.1 h
      obtain ⟨hi, lo, rest, rfl⟩ : ∃ hi lo rest', rest = hi :: lo :: rest' := by
        rcases rest with - | ⟨hi, - | ⟨lo, rest⟩⟩
        · exact absurd htwo (by simp)
        · exact absurd htwo (by simp)
        · exact ⟨hi, lo, rest, rfl⟩
      have hvalue : length = ofBytes [hi, lo] := by
        rw [readUInt, field, if_pos (by simp)] at hread
        exact (Except.ok.inj hread).symm
      have hlt : length < 2 ^ 16 := by
        have hhi := hi.isLt
        have hlo := lo.isLt
        rw [hvalue, ofBytes, List.foldl_cons, List.foldl_cons, List.foldl_nil]
        omega
      simp only [List.length_cons] at hmax
      refine .inr ⟨rest.take (length - 2), rest.drop (length - 2), s.framesWith code,
        s.scansWith code, ⟨hfill, hzero, hrestart⟩, ?_, ?_, ?_, ?_⟩
      · simp only [standsAlone, Bool.or_eq_false_iff, decide_eq_false_iff_not]
        exact ⟨⟨⟨hone, hstart⟩, hend⟩, hrestart⟩
      · rw [List.length_take]
        omega
      · rw [List.take_append_drop, List.length_take_of_le (by omega),
          show length - 2 + 2 = length by omega, hvalue]
        exact congrArg (· ++ rest) (toBytes_ofBytes [hi, lo]).symm
      · obtain ⟨n, rfl⟩ := Nat.exists_eq_add_of_le' hmin
        simp only [Nat.add_sub_cancel, List.drop_succ_cons]

theorem exists_plain_of_dropWhile {bs tail : Bytes} {start : Byte}
    (h : bs.dropWhile (· ≠ 0xFF) = start :: tail) :
    start = 0xFF ∧ ∃ pre, bs = pre ++ start :: tail ∧ ∀ b ∈ pre, b ≠ 0xFF := by
  induction bs with
  | nil => cases h
  | cons b bs ih =>
    by_cases hb : b = 0xFF
    · rw [List.dropWhile_cons_of_neg (by simpa using hb)] at h
      obtain ⟨rfl, rfl⟩ := List.cons.inj h
      exact ⟨hb, [], rfl, nofun⟩
    · rw [List.dropWhile_cons_of_pos (by simpa using hb)] at h
      obtain ⟨hstart, pre, rfl, hpre⟩ := ih h
      exact ⟨hstart, b :: pre, rfl, List.forall_mem_cons.2 ⟨hb, hpre⟩⟩

/-- What one round reads: entropy-coded bytes up to an escape or up to a marker. -/
theorem shape_of_jpegStep {s : JpegState} {next : Option JpegState} (h : jpegStep s = .ok next) :
    ∃ pre fill code rest, s.rest = pre ++ (marker fill code ++ rest) ∧ (∀ b ∈ pre, b ≠ 0xFF) ∧
      (s.scan = false → pre = []) ∧
      (s.scan = true ∧ (code = 0 ∨ isRestart code = true) ∧ next = some { s with rest := rest } ∨
        code ≠ 0xFF ∧ ∃ t, jpegCode t code rest = .ok next) := by
  by_cases hscan : s.scan = true
  · rw [jpegStep, if_pos hscan] at h
    rcases hstart : s.rest.dropWhile (· ≠ 0xFF) with - | ⟨start, tail⟩
    · rw [hstart] at h
      cases h
    · rw [hstart] at h
      simp only at h
      obtain ⟨hff, pre, hrest, hplain⟩ := exists_plain_of_dropWhile hstart
      have hnone : s.scan = false → pre = [] := fun hnot ↦ by
        rw [hscan] at hnot
        cases hnot
      -- the round ends at a marker, or goes on behind an escape
      rcases hskip : skipFill tail with - | ⟨code, rest⟩
      · rw [hskip] at h
        obtain ⟨fill, code, rest, hmarker, hfill, hcode⟩ := exists_marker_of_jpegMarker h
        exact ⟨pre, fill, code, rest, hmarker ▸ hrest, hplain, hnone, .inr ⟨hfill, _, hcode⟩⟩
      · rw [hskip] at h
        simp only at h
        split at h
        case isFalse =>
          obtain ⟨fill, code, rest, hmarker, hfill, hcode⟩ := exists_marker_of_jpegMarker h
          exact ⟨pre, fill, code, rest, hmarker ▸ hrest, hplain, hnone, .inr ⟨hfill, _, hcode⟩⟩
        case isTrue hcode =>
          obtain ⟨-, n, htail⟩ := exists_marker_of_skipFill hskip
          refine ⟨pre, n, code, rest, ?_, hplain, hnone,
            .inl ⟨hscan, hcode, (Except.ok.inj h).symm⟩⟩
          rw [marker_append, ← htail, ← hff]
          exact hrest
  · rw [jpegStep_of_not_scan (by simpa using hscan)] at h
    obtain ⟨fill, code, rest, hrest, hfill, hcode⟩ := exists_marker_of_jpegMarker h
    exact ⟨[], fill, code, rest, hrest, List.forall_mem_nil _, fun _ ↦ rfl, .inr ⟨hfill, s, hcode⟩⟩

/-- **What the loop accepts is segments** up to the end marker. -/
theorem exists_segments {s : JpegState} (h : jpegLoop s = .ok ()) :
    ∃ (e : Bytes) (segments : List Segment) (fill : ℕ),
      s.rest = e ++ (segments.flatMap Segment.bytes ++ marker fill 217) ∧
      (s.scan = true → Entropy e) ∧ (s.scan = false → e = []) ∧ ∀ x ∈ segments, x.Formed := by
  induction hn : s.rest.length using Nat.strong_induction_on generalizing s with
  | _ n ih =>
    subst hn
    have hs : s.rest ≠ [] := by
      intro hnil
      rw [jpegLoop, if_pos hnil] at h
      cases h
    rw [jpegLoop_eq hs] at h
    rcases hstep : jpegStep s with e | next
    · rw [hstep] at h
      cases h
    · rw [hstep] at h
      obtain ⟨pre, fill, code, rest, hrest, hplain, hpre, hshape⟩ := shape_of_jpegStep hstep
      rcases hshape with ⟨hscan, hcode, rfl⟩ | ⟨hfill, t, hcode⟩
      · -- an escape: the entropy-coded data goes on
        obtain ⟨e, segments, fill', hrest', he, -, hformed⟩ := ih _ (jpegStep_lt hstep) h rfl
        refine ⟨pre ++ (marker fill code ++ e), segments, fill', ?_, fun _ ↦
          .append_plain hplain (.escaped hcode (he hscan)), fun hnot ↦ ?_, hformed⟩
        · rw [hrest, show rest = _ from hrest']
          simp only [List.append_assoc]
        · rw [hscan] at hnot
          cases hnot
      · have hentropy : Entropy pre := by
          simpa using Entropy.append_plain hplain .nil
        rcases shape_of_jpegCode hfill hcode with ⟨rfl, rfl, rfl⟩ |
          ⟨payload, rest', frames, scans, hisCode, halone, hlength, rfl, rfl⟩
        · exact ⟨pre, [], fill, by simpa using hrest, fun _ ↦ hentropy, hpre, nofun⟩
        · obtain ⟨e, segments, fill', hrest', he, hnone, hformed⟩ := ih _ (jpegStep_lt hstep) h rfl
          refine ⟨pre, ⟨fill, code, payload, e⟩ :: segments, fill', ?_, fun _ ↦ hentropy, hpre,
            List.forall_mem_cons.2 ⟨⟨hisCode, halone, hlength,
              fun hscan ↦ he (by simpa using hscan), fun hscan ↦ hnone (by simpa using hscan)⟩, hformed⟩⟩
          rw [hrest, show rest' = _ from hrest']
          simp only [List.flatMap_cons, Segment.bytes, List.append_assoc]

/-! ### The check of a JPEG file -/

theorem checkJpeg_jpegBytes {segments : List Segment} (h : ∀ x ∈ segments, x.Formed) (fill : ℕ)
    (tail : Bytes) :
    checkJpeg (jpegBytes segments fill ++ tail) = .ok () ↔
      Fits clearTopBits 0 0 segments ∧ tail = [] := by
  have hrest : (jpegBytes segments fill ++ tail).drop 2 =
      segments.flatMap Segment.bytes ++ (marker fill 217 ++ tail) := by
    simp only [jpegBytes, List.append_assoc]
    rfl
  have hlength : ¬((jpegBytes segments fill ++ tail).length < 4 ∨
      (jpegBytes segments fill ++ tail)[0]? ≠ some 0xFF ∨
        (jpegBytes segments fill ++ tail)[1]? ≠ some 0xD8) := by
    rintro (h | h | h)
    · simp only [jpegBytes, marker, List.length_append, List.length_cons, List.length_replicate,
        List.length_nil] at h
      omega
    · exact h rfl
    · exact h rfl
  rw [checkJpeg, if_neg hlength, hrest]
  exact jpegLoop_segments h fill tail 0 0

/-- **The check accepts the files of a single picture**, with names read without their top bits. -/
theorem checkJpeg_eq_ok {b : Bytes} : checkJpeg b = .ok () ↔ JpegFraming clearTopBits b := by
  constructor
  · intro h
    have hloop := h
    rw [checkJpeg] at hloop
    split at hloop
    case isTrue => cases hloop
    case isFalse hstart =>
      simp only [ne_eq, not_or, not_not, not_lt] at hstart
      obtain ⟨hlength, h0, h1⟩ := hstart
      obtain ⟨e, segments, fill, hrest, -, he, hformed⟩ := exists_segments hloop
      have hb : b = jpegBytes segments fill := by
        rw [he rfl, List.nil_append] at hrest
        rcases b with - | ⟨b0, - | ⟨b1, rest⟩⟩
        · cases h0
        · cases h1
        · rw [jpegBytes, ← hrest, Option.some.inj h0, Option.some.inj h1]
          rfl
      have hfits := (checkJpeg_jpegBytes hformed fill []).1 (by rwa [List.append_nil, ← hb])
      exact ⟨segments, fill, hb, framed_iff.2 ⟨hformed, hfits.1⟩⟩
  · rintro ⟨segments, fill, rfl, hframed⟩
    obtain ⟨hformed, hfits⟩ := framed_iff.1 hframed
    have := (checkJpeg_jpegBytes hformed fill []).2 ⟨hfits, rfl⟩
    rwa [List.append_nil] at this

end Proofmark.Image
