import Proofmark.Image.Png

/-!
# What the container check accepts

The check accepts the files of a single picture, as far as it reads names and kinds: `toString`
clears the top bit of each byte before they are compared. So a chunk with another type passes for
the header or the end, and a file is refused for a name that is not `MPF\0`. Where no name or kind
is mistaken in this way the check is exact (`framingLaws_iff`), and what it accepts is never
followed by anything.
-/

open Evm

namespace Proofmark.Image

/-! ### No field past the end -/

theorem bind_ne_error {α β : Type} {x : Except Failure α} {f : α → Except Failure β} {e : Failure}
    (hx : x ≠ .error e) (hf : ∀ a, x = .ok a → f a ≠ .error e) : x >>= f ≠ .error e := by
  cases x with
  | error e' => exact fun h ↦ hx (by injection h with h; rw [h])
  | ok a => exact hf a rfl

theorem revertIf_invalid_ne_range {c : Bool} : revertIf c invalid ≠ .error .range := by
  cases c <;> exact nofun

theorem field_ne_range {bs : Bytes} {n : ℕ} (h : n ≤ bs.length) : field bs n ≠ .error .range := by
  rw [field, if_pos h]
  rintro ⟨⟩

theorem readUInt_ne_range {bs : Bytes} {n : ℕ} (h : n ≤ bs.length) :
    readUInt bs n ≠ .error .range := by
  rw [readUInt, field, if_pos h]
  rintro ⟨⟩

theorem jpegSegment_ne_range {s : JpegState} {code : Byte} {rest : Bytes} (h : 2 ≤ rest.length) :
    jpegSegment s code rest ≠ .error .range := by
  refine bind_ne_error (readUInt_ne_range h) fun length _ ↦ ?_
  refine bind_ne_error revertIf_invalid_ne_range fun _ hlength ↦ ?_
  rw [revertIf_eq_ok, Bool.or_eq_false_iff, decide_eq_false_iff_not,
    decide_eq_false_iff_not] at hlength
  refine bind_ne_error revertIf_invalid_ne_range fun _ _ ↦ ?_
  refine bind_ne_error revertIf_invalid_ne_range fun _ _ ↦ ?_
  refine bind_ne_error ?_ fun _ _ ↦ bind_ne_error revertIf_invalid_ne_range fun _ _ ↦
    bind_ne_error revertIf_invalid_ne_range fun _ _ ↦ by rintro ⟨⟩
  rw [segmentName]
  split
  case isTrue hname => exact field_ne_range (by rw [List.length_drop]; omega)
  case isFalse => rintro ⟨⟩

theorem jpegMarker_ne_range {s : JpegState} : jpegMarker s ≠ .error .range := by
  rw [jpegMarker]
  split
  · rintro ⟨⟩
  · split
    · rintro ⟨⟩
    · split
      · rintro ⟨⟩
      · rw [jpegCode]
        split
        · split <;> rintro ⟨⟩
        · split
          · rintro ⟨⟩
          case isFalse hcode =>
            simp only [not_or, not_lt] at hcode
            exact jpegSegment_ne_range hcode.2.2.2.2

theorem jpegStep_ne_range {s : JpegState} : jpegStep s ≠ .error .range := by
  rw [jpegStep]
  split
  · split
    · rintro ⟨⟩
    · split
      · exact jpegMarker_ne_range
      · split
        · rintro ⟨⟩
        · exact jpegMarker_ne_range
  · exact jpegMarker_ne_range

theorem jpegLoop_ne_range (s : JpegState) : jpegLoop s ≠ .error .range := by
  induction s using jpegLoop.induct with
  | case1 s hs =>
    rw [jpegLoop, if_pos hs]
    rintro ⟨⟩
  | case2 s hs e hstep =>
    rw [jpegLoop_eq hs, hstep]
    exact fun h ↦ jpegStep_ne_range (hstep.trans (by simpa using h))
  | case3 s hs hstep =>
    rw [jpegLoop_eq hs, hstep]
    rintro ⟨⟩
  | case4 s hs s' hstep ih =>
    rw [jpegLoop_eq hs, hstep]
    exact ih

theorem pngStep_ne_range {first : Bool} {rest : Bytes} (h : 12 ≤ rest.length) :
    pngStep first rest ≠ .error .range := by
  refine bind_ne_error (readUInt_ne_range (by omega)) fun length _ ↦ ?_
  refine bind_ne_error (field_ne_range (by rw [List.length_drop]; omega)) fun name _ ↦ ?_
  refine bind_ne_error revertIf_invalid_ne_range fun _ _ ↦ ?_
  refine bind_ne_error revertIf_invalid_ne_range fun _ _ ↦ ?_
  split
  · exact bind_ne_error revertIf_invalid_ne_range fun _ _ ↦ by rintro ⟨⟩
  · rintro ⟨⟩

theorem pngLoop_ne_range (first : Bool) (rest : Bytes) : pngLoop first rest ≠ .error .range := by
  induction hn : rest.length using Nat.strong_induction_on generalizing first rest with
  | _ n ih =>
    subst hn
    by_cases hrest : 12 ≤ rest.length
    · rw [pngLoop_eq hrest]
      rcases hstep : pngStep first rest with e | - | rest'
      · exact fun h ↦ pngStep_ne_range hrest (hstep.trans (by simpa using h))
      · rintro ⟨⟩
      · exact ih _ (pngStep_lt hrest hstep) false rest' rfl
    · rw [pngLoop, dif_neg hrest]
      rintro ⟨⟩

/-- **Every field that is read lies within the buffer.** -/
theorem checkContainer_ne_range (b : Bytes) (mime : String) :
    checkContainer b mime ≠ .error .range := by
  have hjpeg : checkJpeg b ≠ .error .range := by
    rw [checkJpeg]
    split
    · rintro ⟨⟩
    · exact jpegLoop_ne_range _
  have hpng : checkPng b ≠ .error .range := by
    rw [checkPng]
    split
    · rintro ⟨⟩
    · exact pngLoop_ne_range _ _
  have hmap : ∀ (x : Except Failure Unit) (f : ImageFormat), x ≠ .error .range →
      x.map (fun _ ↦ f) ≠ .error .range := fun x f hx ↦ by
    cases x with
    | error e => exact fun h ↦ hx (by injection h with h; rw [h])
    | ok _ => rintro ⟨⟩
  rw [checkContainer]
  split
  · rintro ⟨⟩
  · split
    · rintro ⟨⟩
    · split
      · rintro ⟨⟩
      · split
        · exact hmap _ _ hjpeg
        · exact hmap _ _ hpng

/-! ### The size and the type -/

/-- A size that is admitted. -/
def Admitted (b : Bytes) : Prop :=
  0 < b.length ∧ b.length ≤ maxBytes

theorem checkContainer_eq_ok {b : Bytes} {mime : String} {format : ImageFormat} :
    checkContainer b mime = .ok format ↔ Admitted b ∧
      (mime = "image/jpeg" ∧ format = .jpeg ∧ checkJpeg b = .ok () ∨
        mime = "image/png" ∧ format = .png ∧ checkPng b = .ok ()) := by
  have hne : ("image/png" : String) ≠ "image/jpeg" := by decide
  rw [checkContainer]
  split
  case isTrue hempty => exact iff_of_false nofun fun h ↦ absurd h.1.1 (by omega)
  case isFalse hempty =>
    split
    case isTrue hlarge => exact iff_of_false nofun fun h ↦ absurd h.1.2 (by omega)
    case isFalse hlarge =>
      have hsize : Admitted b := ⟨by omega, by omega⟩
      split
      case isTrue hmime =>
        refine iff_of_false nofun fun h ↦ ?_
        rcases h.2 with ⟨h, -⟩ | ⟨h, -⟩
        · exact hmime.1 h
        · exact hmime.2 h
      case isFalse hmime =>
        split
        case isTrue hjpeg =>
          rw [map_eq_ok]
          constructor
          · exact fun ⟨_, hcheck, hformat⟩ ↦ ⟨hsize, .inl ⟨hjpeg, hformat.symm, hcheck⟩⟩
          · rintro ⟨-, ⟨-, rfl, hcheck⟩ | ⟨hpng, -⟩⟩
            · exact ⟨(), hcheck, rfl⟩
            · exact absurd (hpng.symm.trans hjpeg) hne
        case isFalse hjpeg =>
          have hpng : mime = "image/png" := by
            by_contra hpng
            exact hmime ⟨hjpeg, hpng⟩
          rw [map_eq_ok]
          constructor
          · exact fun ⟨_, hcheck, hformat⟩ ↦ ⟨hsize, .inr ⟨hpng, hformat.symm, hcheck⟩⟩
          · rintro ⟨-, ⟨hnot, -⟩ | ⟨-, rfl, hcheck⟩⟩
            · exact absurd hnot hjpeg
            · exact ⟨(), hcheck, rfl⟩

theorem checkContainer_jpeg {b : Bytes} : checkContainer b "image/jpeg" = .ok .jpeg ↔
    Admitted b ∧ JpegFraming clearTopBits b := by
  rw [checkContainer_eq_ok, ← checkJpeg_eq_ok]
  simp

theorem checkContainer_png {b : Bytes} : checkContainer b "image/png" = .ok .png ↔
    Admitted b ∧ PngFraming clearTopBits b := by
  rw [checkContainer_eq_ok, ← checkPng_eq_ok]
  simp

/-- **Nothing follows what is accepted.** -/
theorem append_accepted {b t : Bytes} {mime : String} {format format' : ImageFormat}
    (h : checkContainer b mime = .ok format) (h' : checkContainer (b ++ t) mime = .ok format') :
    t = [] := by
  obtain ⟨-, h⟩ := checkContainer_eq_ok.1 h
  obtain ⟨-, h'⟩ := checkContainer_eq_ok.1 h'
  rcases h with ⟨hmime, -, h⟩ | ⟨hmime, -, h⟩
  · obtain ⟨segments, fill, rfl, hframed⟩ := checkJpeg_eq_ok.1 h
    rcases h' with ⟨-, -, h'⟩ | ⟨hpng, -⟩
    · exact ((checkJpeg_jpegBytes hframed.formed fill t).1 h').2
    · exact absurd (hmime.symm.trans hpng) (by decide)
  · obtain ⟨header, inner, last, rfl, hformed, hframed⟩ := checkPng_eq_ok.1 h
    rcases h' with ⟨hjpeg, -⟩ | ⟨-, -, h'⟩
    · exact absurd (hmime.symm.trans hjpeg) (by decide)
    · exact ((checkPng_pngBytes hformed ⟨last, by simp, hframed.last.1⟩ t).1 h').2

/-! ### Names that are mistaken -/

/-- What should hold of the check of `b`: it reads within the buffer, it accepts the files of a
single picture, of either format, and nothing follows an accepted file. -/
structure FramingLaws (b : Bytes) : Prop where
  in_bounds : ∀ mime, checkContainer b mime ≠ .error .range
  jpeg : checkContainer b "image/jpeg" = .ok .jpeg ↔ Admitted b ∧ JpegFraming id b
  png : checkContainer b "image/png" = .ok .png ↔ Admitted b ∧ PngFraming id b
  nothing_after : ∀ mime format format' t, checkContainer b mime = .ok format →
    checkContainer (b ++ t) mime = .ok format' → t = []

/-- No name or kind is taken for another because its top bits are cleared: in the files of a single
picture none for `MPF\0`, an animation chunk or the end, and in what is accepted none for the
header or the end. -/
structure PlainNames (b : Bytes) : Prop where
  segment : ∀ segments fill, b = jpegBytes segments fill → Framed id segments →
    ∀ x ∈ segments, ¬x.IsMpf clearTopBits
  inner : ∀ header inner last, b = pngBytes header inner last →
    (∀ c ∈ header :: (inner ++ [last]), c.Formed) → PngFramed id header inner last →
    ∀ c ∈ inner, clearTopBits c.kind ∉ animationKinds ∧ clearTopBits c.kind ≠ ascii "IEND"
  ends : ∀ header inner last, b = pngBytes header inner last →
    (∀ c ∈ header :: (inner ++ [last]), c.Formed) → PngFramed clearTopBits header inner last →
    header.kind = ascii "IHDR" ∧ last.kind = ascii "IEND"

theorem isMpf_clearTopBits {x : Segment} (h : x.IsMpf id) : x.IsMpf clearTopBits := by
  obtain ⟨hcode, hname⟩ := h
  refine ⟨hcode, ?_⟩
  rw [show x.payload.take 4 = mpf from hname]
  decide

theorem framed_id {segments : List Segment} (h : Framed clearTopBits segments) :
    Framed id segments :=
  { h with not_mpf := fun x hx hmpf ↦ h.not_mpf x hx (isMpf_clearTopBits hmpf) }

/-- The bytes determine the first kind, and the last when the end is empty. -/
theorem kinds_of_pngBytes_eq {header header' last last' : Chunk} {inner inner' : List Chunk}
    (h : ∀ c ∈ header :: (inner ++ [last]), c.Formed)
    (h' : ∀ c ∈ header' :: (inner' ++ [last']), c.Formed)
    (hdata : last.data = []) (hdata' : last'.data = [])
    (heq : pngBytes header inner last = pngBytes header' inner' last') :
    header.kind = header'.kind ∧ last.kind = last'.kind := by
  have hheader := h header List.mem_cons_self
  have hheader' := h' header' List.mem_cons_self
  have hlast := h last (by simp)
  have hlast' := h' last' (by simp)
  constructor
  · have hbody := List.append_cancel_left heq
    simp only [Chunk.bytes, List.append_assoc] at hbody
    obtain ⟨-, hbody⟩ := List.append_inj hbody (by rw [length_toBytes, length_toBytes])
    exact (List.append_inj hbody (by rw [hheader.length_kind, hheader'.length_kind])).1
  · simp only [pngBytes, Chunk.bytes, hdata, hdata', List.nil_append, ← List.append_assoc] at heq
    obtain ⟨heq, -⟩ := List.append_inj' heq (by rw [hlast.length_crc, hlast'.length_crc])
    exact (List.append_inj' heq (by rw [hlast.length_kind, hlast'.length_kind])).2

/-- **The framing of a file is checked exactly when no name is mistaken.** -/
theorem framingLaws_iff (b : Bytes) : FramingLaws b ↔ (Admitted b → PlainNames b) := by
  have hends : clearTopBits (ascii "IHDR") = ascii "IHDR" ∧
      clearTopBits (ascii "IEND") = ascii "IEND" := by decide
  constructor
  · intro h hsize
    refine ⟨fun segments fill hb hframed ↦ ?_, fun header inner last hb hformed hframed ↦ ?_,
      fun header inner last hb hformed hframed ↦ ?_⟩
    · have hok := h.jpeg.2 ⟨hsize, segments, fill, hb, hframed⟩
      rw [checkContainer_jpeg, ← checkJpeg_eq_ok, hb, ← List.append_nil (jpegBytes _ _),
        checkJpeg_jpegBytes hframed.formed] at hok
      exact (fits_iff.1 hok.2.1).2.2.2.2
    · have hok := h.png.2 ⟨hsize, header, inner, last, hb, hformed, hframed⟩
      have hend : ∃ c ∈ header :: (inner ++ [last]), clearTopBits c.kind = ascii "IEND" :=
        ⟨last, by simp, by rw [show last.kind = _ from hframed.last.1]; exact hends.2⟩
      rw [checkContainer_png, ← checkPng_eq_ok, hb, ← List.append_nil (pngBytes _ _ _),
        checkPng_pngBytes hformed hend] at hok
      exact hok.2.1.inner
    · have hok := checkContainer_png.2 ⟨hsize, header, inner, last, hb, hformed, hframed⟩
      obtain ⟨-, header', inner', last', hb', hformed', hframed'⟩ := h.png.1 hok
      obtain ⟨hfirst, hlast⟩ := kinds_of_pngBytes_eq hformed hformed' hframed.last.2
        hframed'.last.2 (hb.symm.trans hb')
      exact ⟨hfirst.trans hframed'.header.1, hlast.trans hframed'.last.1⟩
  · intro h
    refine ⟨checkContainer_ne_range b, ?_, ?_, fun _ _ _ _ ↦ append_accepted⟩
    · rw [checkContainer_jpeg]
      refine and_congr_right fun hsize ↦ ⟨?_, ?_⟩
      · exact fun ⟨segments, fill, hb, hframed⟩ ↦ ⟨segments, fill, hb, framed_id hframed⟩
      · exact fun ⟨segments, fill, hb, hframed⟩ ↦ ⟨segments, fill, hb,
          { hframed with not_mpf := (h hsize).segment segments fill hb hframed }⟩
    · rw [checkContainer_png]
      refine and_congr_right fun hsize ↦ ⟨?_, ?_⟩
      · rintro ⟨header, inner, last, hb, hformed, hframed⟩
        obtain ⟨hfirst, hlast⟩ := (h hsize).ends header inner last hb hformed hframed
        have hplain : ∀ k : Bytes, k ∈ animationKinds ∨ k = ascii "IEND" → clearTopBits k = k := by
          rintro k (hk | rfl)
          · simp only [animationKinds, List.mem_cons, List.not_mem_nil, or_false] at hk
            rcases hk with rfl | rfl | rfl <;> decide
          · exact hends.2
        refine ⟨header, inner, last, hb, hformed, ⟨hfirst, hframed.header.2⟩, fun c hc ↦ ?_,
          hlast, hframed.last.2⟩
        obtain ⟨hanimation, hend⟩ := hframed.inner c hc
        refine ⟨fun hkind ↦ hanimation ?_, fun hkind ↦ hend ?_⟩
        · rwa [hplain c.kind (.inl hkind)]
        · rw [hplain c.kind (.inr hkind)]
          exact hkind
      · rintro ⟨header, inner, last, hb, hformed, hframed⟩
        have hkinds := (h hsize).inner header inner last hb hformed hframed
        refine ⟨header, inner, last, hb, hformed, ⟨?_, hframed.header.2⟩, hkinds, ?_,
          hframed.last.2⟩
        · rw [show header.kind = _ from hframed.header.1]
          exact hends.1
        · rw [show last.kind = _ from hframed.last.1]
          exact hends.2

/-! ### A file with another header -/

/-- A file whose first chunk has the type `C9 48 44 52`. -/
def maskedPng : Bytes :=
  pngSignature ++ (toBytes 4 13 ++ [0xC9, 0x48, 0x44, 0x52] ++ List.replicate 17 0) ++
    (toBytes 4 0 ++ ascii "IEND" ++ List.replicate 4 0)

/-- It is accepted, and the claim that what is accepted begins with a header fails. -/
theorem maskedPng_not_framed :
    checkContainer maskedPng "image/png" = .ok .png ∧ ¬PngFraming id maskedPng ∧
      ¬FramingLaws maskedPng := by
  have hok : checkContainer maskedPng "image/png" = .ok .png := by
    rw [← toOption_eq_some]
    decide +kernel
  have hnot : ¬PngFraming id maskedPng := by
    rintro ⟨header, inner, last, hb, hformed, hframed⟩
    have hheader := hformed header List.mem_cons_self
    have hkind : (maskedPng.drop 12).take 4 = header.kind := by
      rw [hb, pngBytes, show (12 : ℕ) = pngSignature.length + 4 from rfl, ← List.drop_drop,
        List.drop_left, Chunk.bytes, List.append_assoc, List.drop_left' (length_toBytes _ _),
        List.append_assoc, List.take_left' hheader.length_kind]
    rw [show header.kind = _ from hframed.header.1] at hkind
    exact absurd hkind (by decide +kernel)
  exact ⟨hok, hnot, fun h ↦ hnot (h.png.1 hok).2⟩

end Proofmark.Image
