import Proofmark.Image.Jpeg

/-!
# The framing of a PNG file

A PNG file is the signature and chunks, each with its length, its kind, its data and a checksum. The
first is the header and the last the end; what is read of the kinds is a parameter, as for the names
of JPEG segments.
-/

open Evm

namespace Proofmark.Image

/-! ### The format -/

structure Chunk where
  kind : Bytes
  data : Bytes
  crc : Bytes

def Chunk.bytes (c : Chunk) : Bytes :=
  toBytes 4 c.data.length ++ (c.kind ++ (c.data ++ c.crc))

structure Chunk.Formed (c : Chunk) : Prop where
  length_kind : c.kind.length = 4
  length_crc : c.crc.length = 4
  length_data : c.data.length < 2 ^ 32

/-- The chunks of a single picture: the header, other chunks, the end. -/
structure PngFramed (read : Bytes → Bytes) (header : Chunk) (inner : List Chunk) (last : Chunk) :
    Prop where
  header : read header.kind = ascii "IHDR" ∧ header.data.length = 13
  inner : ∀ c ∈ inner, read c.kind ∉ animationKinds ∧ read c.kind ≠ ascii "IEND"
  last : read last.kind = ascii "IEND" ∧ last.data = []

def pngBytes (header : Chunk) (inner : List Chunk) (last : Chunk) : Bytes :=
  pngSignature ++ (header.bytes ++ (inner.flatMap Chunk.bytes ++ last.bytes))

/-- The bytes are a PNG file of a single picture. -/
def PngFraming (read : Bytes → Bytes) (b : Bytes) : Prop :=
  ∃ header inner last, b = pngBytes header inner last ∧
    (∀ c ∈ header :: (inner ++ [last]), c.Formed) ∧ PngFramed read header inner last

/-! ### The loop on chunks -/

/-- What the loop asks of the chunks up to the end. -/
def ChunksFit (read : Bytes → Bytes) : Bool → List Chunk → Prop
  | _, [] => False
  | first, c :: rest =>
    read c.kind ∉ animationKinds ∧
      (first = true → read c.kind = ascii "IHDR" ∧ c.data.length = 13) ∧
      (read c.kind = ascii "IEND" ∧ c.data = [] ∧ rest = [] ∨
        read c.kind ≠ ascii "IEND" ∧ ChunksFit read false rest)

theorem Chunk.length_bytes {c : Chunk} (hc : c.Formed) : c.bytes.length = c.data.length + 12 := by
  simp only [Chunk.bytes, List.length_append, length_toBytes, hc.length_kind, hc.length_crc]
  omega

/-- **A chunk is read** exactly when it fits. -/
theorem pngStep_chunk {c : Chunk} (hc : c.Formed) {first : Bool} {rest : Bytes}
    {next : Option Bytes} :
    pngStep first (c.bytes ++ rest) = .ok next ↔
      clearTopBits c.kind ∉ animationKinds ∧
        (first = true → clearTopBits c.kind = ascii "IHDR" ∧ c.data.length = 13) ∧
        (clearTopBits c.kind = ascii "IEND" ∧ c.data = [] ∧ rest = [] ∧ next = none ∨
          clearTopBits c.kind ≠ ascii "IEND" ∧ next = some rest) := by
  have hbytes : c.bytes ++ rest =
      toBytes 4 c.data.length ++ (c.kind ++ (c.data ++ (c.crc ++ rest))) := by
    simp only [Chunk.bytes, List.append_assoc]
  have hread : readUInt (c.bytes ++ rest) 4 = .ok c.data.length := by
    rw [hbytes, readUInt_append hc.length_data]
  have hname : field ((c.bytes ++ rest).drop 4) 4 = .ok c.kind := by
    rw [hbytes, List.drop_left' (length_toBytes _ _), field_append hc.length_kind]
  have hdrop : (c.bytes ++ rest).drop (c.data.length + 12) = rest :=
    List.drop_left' (Chunk.length_bytes hc)
  have hfits : c.data.length ≤ (c.bytes ++ rest).length - 12 := by
    rw [List.length_append, Chunk.length_bytes hc]
    omega
  rw [pngStep_eq_ok]
  constructor
  · rintro ⟨length, name, hlength, hkind, -, hanimation, hfirst, hnext⟩
    obtain rfl := Except.ok.inj (hread.symm.trans hlength)
    obtain rfl := Except.ok.inj (hname.symm.trans hkind)
    rw [hdrop] at hnext
    refine ⟨hanimation, hfirst, hnext.imp_left fun ⟨hend, hzero, hrest, hnone⟩ ↦ ?_⟩
    exact ⟨hend, List.eq_nil_of_length_eq_zero hzero, hrest, hnone⟩
  · rintro ⟨hanimation, hfirst, hnext⟩
    refine ⟨_, _, hread, hname, hfits, hanimation, hfirst, ?_⟩
    rw [hdrop]
    exact hnext.imp_left fun ⟨hend, hdata, hrest, hnone⟩ ↦ ⟨hend, by rw [hdata]; rfl, hrest, hnone⟩

theorem pngLoop_eq {first : Bool} {rest : Bytes} (h : 12 ≤ rest.length) :
    pngLoop first rest = match pngStep first rest with
      | .error e => .error e
      | .ok none => .ok ()
      | .ok (some rest') => pngLoop false rest' := by
  rw [pngLoop, dif_pos h]
  split <;> simp_all

theorem Chunk.bytes_append_ne_nil {c : Chunk} (hc : c.Formed) (rest : Bytes) :
    c.bytes ++ rest ≠ [] := by
  intro h
  have := congrArg List.length h
  rw [List.length_append, Chunk.length_bytes hc] at this
  simp at this

/-- **The loop on chunks** that have an end: it accepts them when they fit and nothing follows. -/
theorem pngLoop_chunks {chunks : List Chunk} (h : ∀ c ∈ chunks, c.Formed) (first : Bool)
    (tail : Bytes) (hend : ∃ c ∈ chunks, clearTopBits c.kind = ascii "IEND") :
    pngLoop first (chunks.flatMap Chunk.bytes ++ tail) = .ok () ↔
      ChunksFit clearTopBits first chunks ∧ tail = [] := by
  induction chunks generalizing first with
  | nil => exact absurd hend (by simp)
  | cons c rest ih =>
    obtain ⟨hc, hrest⟩ := List.forall_mem_cons.1 h
    have hlength : 12 ≤ (c.bytes ++ (rest.flatMap Chunk.bytes ++ tail)).length := by
      rw [List.length_append, Chunk.length_bytes hc]
      omega
    rw [List.flatMap_cons, List.append_assoc, pngLoop_eq hlength, ChunksFit]
    have hread : ∀ next, pngStep first (c.bytes ++ (rest.flatMap Chunk.bytes ++ tail)) = .ok next ↔
        _ := fun next ↦ pngStep_chunk hc
    by_cases hkind : clearTopBits c.kind = ascii "IEND"
    · -- nothing may follow the end
      have hnil : rest.flatMap Chunk.bytes ++ tail = [] ↔ rest = [] ∧ tail = [] := by
        rw [List.append_eq_nil_iff]
        refine and_congr_left fun _ ↦ ⟨fun hbytes ↦ ?_, fun hr ↦ by rw [hr]; rfl⟩
        cases rest with
        | nil => rfl
        | cons c' rest =>
          exact absurd hbytes (Chunk.bytes_append_ne_nil (hrest c' List.mem_cons_self) _)
      rcases hstep : pngStep first (c.bytes ++ (rest.flatMap Chunk.bytes ++ tail)) with e | next
      · refine iff_of_false nofun fun ⟨⟨hanimation, hfirst, hlast⟩, htail⟩ ↦ ?_
        rcases hlast with ⟨-, hdata, hr⟩ | ⟨hnot, -⟩
        · have := (hread none).2 ⟨hanimation, hfirst, .inl ⟨hkind, hdata, hnil.2 ⟨hr, htail⟩, rfl⟩⟩
          rw [hstep] at this
          cases this
        · exact hnot hkind
      · obtain ⟨hanimation, hfirst, hlast⟩ := (hread next).1 hstep
        rcases hlast with ⟨-, hdata, hr, rfl⟩ | ⟨hnot, -⟩
        · obtain ⟨hr, htail⟩ := hnil.1 hr
          exact iff_of_true rfl ⟨⟨hanimation, hfirst, .inl ⟨hkind, hdata, hr⟩⟩, htail⟩
        · exact absurd hkind hnot
    · have hend' : ∃ c ∈ rest, clearTopBits c.kind = ascii "IEND" := by
        obtain ⟨c', hc', hlast⟩ := hend
        rcases List.mem_cons.1 hc' with rfl | hc'
        · exact absurd hlast hkind
        · exact ⟨c', hc', hlast⟩
      rcases hstep : pngStep first (c.bytes ++ (rest.flatMap Chunk.bytes ++ tail)) with e | next
      · refine iff_of_false nofun fun ⟨⟨hanimation, hfirst, hlast⟩, _⟩ ↦ ?_
        have := (hread (some _)).2 ⟨hanimation, hfirst, .inr ⟨hkind, rfl⟩⟩
        rw [hstep] at this
        cases this
      · obtain ⟨hanimation, hfirst, hlast⟩ := (hread next).1 hstep
        rcases hlast with ⟨hlast, -⟩ | ⟨-, rfl⟩
        · exact absurd hlast hkind
        · simp only [ih hrest false hend']
          constructor
          · exact fun ⟨hfit, htail⟩ ↦ ⟨⟨hanimation, hfirst, .inr ⟨hkind, hfit⟩⟩, htail⟩
          · rintro ⟨⟨-, -, ⟨hlast, -⟩ | ⟨-, hfit⟩⟩, htail⟩
            · exact absurd hlast hkind
            · exact ⟨hfit, htail⟩

theorem exists_chunk {first : Bool} {rest : Bytes} {next : Option Bytes} (hrest : 12 ≤ rest.length)
    (h : pngStep first rest = .ok next) :
    ∃ c : Chunk, c.Formed ∧ rest = c.bytes ++ rest.drop (c.data.length + 12) := by
  obtain ⟨length, name, hread, -, hfits, -⟩ := pngStep_eq_ok.1 h
  have hlength : length = ofBytes (rest.take 4) := by
    rw [readUInt, field, if_pos (by omega)] at hread
    exact (Except.ok.inj hread).symm
  have hlt : length < 2 ^ 32 := by
    have h4 : (rest.take 4).length = 4 := List.length_take_of_le (by omega)
    have := congrArg ofBytes (toBytes_ofBytes (rest.take 4))
    rw [h4, ofBytes_toBytes] at this
    rw [hlength, ← this]
    exact Nat.mod_lt _ (by decide)
  refine ⟨⟨(rest.drop 4).take 4, (rest.drop 8).take length, (rest.drop (8 + length)).take 4⟩,
    ⟨?_, ?_, ?_⟩, ?_⟩
  · rw [List.length_take, List.length_drop]
    omega
  · rw [List.length_take, List.length_drop]
    omega
  · rw [List.length_take, List.length_drop]
    omega
  · have hdata : ((rest.drop 8).take length).length = length := by
      rw [List.length_take, List.length_drop]
      omega
    have h4 : toBytes 4 length = rest.take 4 := by
      have := toBytes_ofBytes (rest.take 4)
      rwa [List.length_take_of_le (by omega), ← hlength] at this
    rw [Chunk.bytes, hdata, h4]
    have hcrc : (rest.drop (8 + length)).take 4 ++ rest.drop (length + 12) =
        rest.drop (8 + length) := by
      rw [show rest.drop (length + 12) = (rest.drop (8 + length)).drop 4 by
        rw [List.drop_drop]; congr 1; omega, List.take_append_drop]
    have hbody : (rest.drop 8).take length ++ rest.drop (8 + length) = rest.drop 8 := by
      rw [← List.drop_drop, List.take_append_drop]
    have hkind : (rest.drop 4).take 4 ++ rest.drop 8 = rest.drop 4 := by
      rw [show 8 = 4 + 4 from rfl, ← List.drop_drop, List.take_append_drop]
    rw [List.append_assoc, List.append_assoc, List.append_assoc, hcrc, hbody, hkind,
      List.take_append_drop]

/-- **What the loop accepts is chunks** that fit. -/
theorem exists_chunks {first : Bool} {rest : Bytes} (h : pngLoop first rest = .ok ()) :
    ∃ chunks : List Chunk, rest = chunks.flatMap Chunk.bytes ∧ (∀ c ∈ chunks, c.Formed) ∧
      ChunksFit clearTopBits first chunks := by
  induction hn : rest.length using Nat.strong_induction_on generalizing first rest with
  | _ n ih =>
    subst hn
    by_cases hrest : 12 ≤ rest.length
    · rw [pngLoop_eq hrest] at h
      rcases hstep : pngStep first rest with e | next
      · rw [hstep] at h
        cases h
      · rw [hstep] at h
        obtain ⟨c, hc, heq⟩ := exists_chunk hrest hstep
        generalize hbehind : rest.drop (c.data.length + 12) = behind at heq
        rw [heq] at hstep
        obtain ⟨hanimation, hfirst, hlast⟩ := (pngStep_chunk hc).1 hstep
        rcases hlast with ⟨hkind, hdata, rfl, rfl⟩ | ⟨hkind, rfl⟩
        · exact ⟨[c], by simpa using heq, List.forall_mem_singleton.2 hc, hanimation, hfirst,
            .inl ⟨hkind, hdata, rfl⟩⟩
        · have hlt : behind.length < rest.length := by
            rw [heq, List.length_append, Chunk.length_bytes hc]
            omega
          obtain ⟨chunks, hbytes, hformed, hfit⟩ := ih _ hlt h rfl
          exact ⟨c :: chunks, by rw [List.flatMap_cons, ← hbytes, heq],
            List.forall_mem_cons.2 ⟨hc, hformed⟩, hanimation, hfirst, .inr ⟨hkind, hfit⟩⟩
    · rw [pngLoop, dif_neg hrest] at h
      cases h

/-! ### The order of the chunks -/

theorem chunksFit_false_iff {read : Bytes → Bytes} {chunks : List Chunk} :
    ChunksFit read false chunks ↔ ∃ inner last, chunks = inner ++ [last] ∧
      (∀ c ∈ inner, read c.kind ∉ animationKinds ∧ read c.kind ≠ ascii "IEND") ∧
        read last.kind = ascii "IEND" ∧ last.data = [] := by
  have hend : ascii "IEND" ∉ animationKinds := by decide
  induction chunks with
  | nil => simp [ChunksFit]
  | cons c rest ih =>
    rw [ChunksFit]
    constructor
    · rintro ⟨hanimation, -, ⟨hkind, hdata, rfl⟩ | ⟨hkind, hrest⟩⟩
      · exact ⟨[], c, rfl, nofun, hkind, hdata⟩
      · obtain ⟨inner, last, rfl, hinner, hlast⟩ := ih.1 hrest
        exact ⟨c :: inner, last, rfl, List.forall_mem_cons.2 ⟨⟨hanimation, hkind⟩, hinner⟩, hlast⟩
    · rintro ⟨inner, last, heq, hinner, hlast⟩
      cases inner with
      | nil =>
        obtain ⟨rfl, rfl⟩ := List.cons.inj heq
        exact ⟨by rw [hlast.1]; exact hend, nofun, .inl ⟨hlast.1, hlast.2, rfl⟩⟩
      | cons c' inner =>
        obtain ⟨rfl, rfl⟩ := List.cons.inj heq
        obtain ⟨hc, hinner⟩ := List.forall_mem_cons.1 hinner
        exact ⟨hc.1, nofun, .inr ⟨hc.2, ih.2 ⟨inner, last, rfl, hinner, hlast⟩⟩⟩

theorem chunksFit_true_iff {read : Bytes → Bytes} {chunks : List Chunk} :
    ChunksFit read true chunks ↔ ∃ header inner last, chunks = header :: (inner ++ [last]) ∧
      PngFramed read header inner last := by
  have hheader : ascii "IHDR" ∉ animationKinds ∧ ascii "IHDR" ≠ ascii "IEND" := by decide
  cases chunks with
  | nil => simp [ChunksFit]
  | cons c rest =>
    rw [ChunksFit, chunksFit_false_iff]
    constructor
    · rintro ⟨-, hfirst, ⟨hkind, -⟩ | ⟨-, inner, last, rfl, hinner, hlast⟩⟩
      · rw [(hfirst rfl).1] at hkind
        exact absurd hkind hheader.2
      · exact ⟨c, inner, last, rfl, hfirst rfl, hinner, hlast⟩
    · rintro ⟨header, inner, last, heq, hframed⟩
      obtain ⟨rfl, rfl⟩ := List.cons.inj heq
      refine ⟨by rw [hframed.header.1]; exact hheader.1, fun _ ↦ hframed.header,
        .inr ⟨by rw [hframed.header.1]; exact hheader.2, inner, last, rfl, hframed.inner,
          hframed.last⟩⟩

/-! ### The check of a PNG file -/

theorem checkPng_pngBytes {header last : Chunk} {inner : List Chunk}
    (h : ∀ c ∈ header :: (inner ++ [last]), c.Formed)
    (hend : ∃ c ∈ header :: (inner ++ [last]), clearTopBits c.kind = ascii "IEND")
    (tail : Bytes) :
    checkPng (pngBytes header inner last ++ tail) = .ok () ↔
      PngFramed clearTopBits header inner last ∧ tail = [] := by
  have hsignature : pngSignature.length = 8 := rfl
  have hbytes : pngBytes header inner last ++ tail =
      pngSignature ++ ((header :: (inner ++ [last])).flatMap Chunk.bytes ++ tail) := by
    simp [pngBytes]
  have hloop := pngLoop_chunks h true tail hend
  have hfits : ChunksFit clearTopBits true (header :: (inner ++ [last])) ↔
      PngFramed clearTopBits header inner last := by
    rw [chunksFit_true_iff]
    constructor
    · rintro ⟨header', inner', last', heq, hframed⟩
      obtain ⟨rfl, htail⟩ := List.cons.inj heq
      obtain ⟨rfl, hlast⟩ := List.append_inj' htail rfl
      obtain ⟨rfl, -⟩ := List.cons.inj hlast
      exact hframed
    · exact fun hframed ↦ ⟨header, inner, last, rfl, hframed⟩
  rw [hbytes, checkPng, List.take_left' hsignature, List.drop_left' hsignature]
  by_cases hshort : (pngSignature ++
      ((header :: (inner ++ [last])).flatMap Chunk.bytes ++ tail)).length < 33
  · rw [if_pos (.inl hshort)]
    refine iff_of_false nofun fun ⟨hframed, _⟩ ↦ ?_
    have hh := Chunk.length_bytes (h header List.mem_cons_self)
    rw [hframed.header.2] at hh
    simp only [List.flatMap_cons, List.length_append, hh, hsignature] at hshort
    omega
  · rw [if_neg (by simpa using hshort), hloop, hfits]

/-- **The check accepts the files of a single picture**, with kinds read without their top bits. -/
theorem checkPng_eq_ok {b : Bytes} : checkPng b = .ok () ↔ PngFraming clearTopBits b := by
  constructor
  · intro h
    have hloop := h
    rw [checkPng] at hloop
    split at hloop
    case isTrue => cases hloop
    case isFalse hstart =>
      simp only [not_or, not_not, not_lt, ne_eq] at hstart
      obtain ⟨chunks, hbytes, hformed, hfit⟩ := exists_chunks hloop
      obtain ⟨header, inner, last, rfl, hframed⟩ := chunksFit_true_iff.1 hfit
      refine ⟨header, inner, last, ?_, hformed, hframed⟩
      have hb : b = pngSignature ++ b.drop 8 := by
        rw [← hstart.2, List.take_append_drop]
      rw [hb, hbytes]
      simp [pngBytes]
  · rintro ⟨header, inner, last, rfl, hformed, hframed⟩
    have hend : ∃ c ∈ header :: (inner ++ [last]), clearTopBits c.kind = ascii "IEND" :=
      ⟨last, by simp, hframed.last.1⟩
    have := (checkPng_pngBytes hformed hend []).2 ⟨hframed, rfl⟩
    rwa [List.append_nil] at this

end Proofmark.Image
