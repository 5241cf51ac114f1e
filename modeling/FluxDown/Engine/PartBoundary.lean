import FluxDown.Base.Indexed
import FluxDown.Engine.PartLoad
import FluxDown.Engine.PartRanges

/-!
# What a sidecar keeps of the other files

Library `Engine`. The files of a torrent follow each other, and a piece of a file is one that has
bytes of it. A piece that two files share is the last of one and the first of the other, so the
first and the last piece of a file are the only ones that another file can need, and the segments
hold each byte of a needed piece once. What is written and loaded again keeps these bytes as they
were staged.
-/

namespace Engine.PartFile

open Base

/-! ## Layouts -/

/-- The files start at the position and follow each other. -/
def Follow : Nat → List PartsFileMeta → Prop
  | _, [] => True
  | pos, f :: files => f.offsetInTorrent = pos ∧ Follow (pos + f.len) files

/-- The layout of a torrent: files one behind the other, and the pieces of a file are those with
bytes of it. Piece lengths and numbers have 32 bits; a file without bytes may name a piece at its
place. -/
structure Laid (files : List PartsFileMeta) (pieceLength totalLength : Nat) : Prop where
  pieceLength_pos : 0 < pieceLength
  pieceLength_le : pieceLength ≤ maxU32
  endPiece_le : ∀ f ∈ files, f.endPiece ≤ maxU32
  follow : Follow 0 files
  total : totalLength = (files.map PartsFileMeta.len).sum
  pieces : ∀ f ∈ files, 0 < f.len → ∀ p, f.HasPiece p ↔
    p * pieceLength < f.offsetInTorrent + f.len ∧ f.offsetInTorrent < (p + 1) * pieceLength
  noBytes : ∀ f ∈ files, f.len = 0 → ∀ p, f.HasPiece p →
    p * pieceLength ≤ f.offsetInTorrent ∧ f.offsetInTorrent ≤ (p + 1) * pieceLength

/-- The byte is one that a sidecar keeps: of a file that is neither selected nor padding, in a
piece of one that is selected. -/
def Wanted (files : List PartsFileMeta) (selected : List Nat) (pieceLength id pos : Nat) : Prop :=
  ∃ f, files[id]? = some f ∧ id ∉ selected ∧ f.padding = false ∧ pos < f.len ∧
    Needed files selected ((f.offsetInTorrent + pos) / pieceLength)

private theorem wanted_iff {files : List PartsFileMeta} {selected : List Nat}
    {pieceLength id pos : Nat}
    {f : PartsFileMeta} (hf : files[id]? = some f) : Wanted files selected pieceLength id pos ↔
      id ∉ selected ∧ f.padding = false ∧ pos < f.len ∧
        Needed files selected ((f.offsetInTorrent + pos) / pieceLength) := by
  simp [Wanted, hf]

instance (files : List PartsFileMeta) (selected : List Nat) (pieceLength id pos : Nat) :
    Decidable (Wanted files selected pieceLength id pos) :=
  match hf : files[id]? with
  | none => .isFalse fun ⟨f, hsome, _⟩ ↦ by simp [hf] at hsome
  | some _ => decidable_of_iff _ (wanted_iff hf).symm

/-- The segment has the byte of the file. -/
def Covers (id pos : Nat) (seg : Nat × Nat × Nat) : Prop :=
  seg.1 = id ∧ seg.2.1 ≤ pos ∧ pos < seg.2.1 + seg.2.2

instance (id pos : Nat) : DecidablePred (Covers id pos) :=
  fun _ ↦ inferInstanceAs (Decidable (_ ∧ _))

section Follow

variable {files : List PartsFileMeta} {f g : PartsFileMeta}

/-- Files in order lie in the torrent. -/
theorem Follow.bounds : ∀ {files : List PartsFileMeta} {start : Nat}, Follow start files →
    ∀ f ∈ files, start ≤ f.offsetInTorrent ∧
      f.offsetInTorrent + f.len ≤ start + (files.map PartsFileMeta.len).sum
  | g :: files, start, ⟨hstart, hrest⟩, f, hf => by
    rw [List.map_cons, List.sum_cons]
    rcases List.mem_cons.mp hf with rfl | hf
    · omega
    · have := hrest.bounds f hf
      omega

/-- Of two files, one ends before the other starts. -/
theorem Follow.disjoint : ∀ {files : List PartsFileMeta} {start : Nat}, Follow start files →
    ∀ {i j : Nat}, i ≠ j → files[i]? = some f → files[j]? = some g →
      f.offsetInTorrent + f.len ≤ g.offsetInTorrent ∨ g.offsetInTorrent + g.len ≤ f.offsetInTorrent
  | _ :: _, _, _, 0, 0, hij, _, _ => absurd rfl hij
  | _ :: _, _, ⟨hstart, hrest⟩, 0, j + 1, _, hi, hj => by
    cases hi
    have := (hrest.bounds g (List.mem_of_getElem? hj)).1
    omega
  | _ :: _, _, ⟨hstart, hrest⟩, i + 1, 0, _, hi, hj => by
    cases hj
    have := (hrest.bounds f (List.mem_of_getElem? hi)).1
    omega
  | _ :: _, _, ⟨_, hrest⟩, i + 1, j + 1, hij, hi, hj =>
    hrest.disjoint (fun h ↦ hij (congrArg (· + 1) h)) hi hj

/-- A bound on the files that have bytes bounds the end of all. -/
theorem Follow.sum_le : ∀ {files : List PartsFileMeta} {start bound : Nat}, Follow start files →
    start ≤ bound → (∀ f ∈ files, 0 < f.len → f.offsetInTorrent + f.len ≤ bound) →
      start + (files.map PartsFileMeta.len).sum ≤ bound
  | [], _, _, _, hstart, _ => by simpa
  | f :: files, start, bound, ⟨hoffset, hrest⟩, hstart, hbound => by
    rw [List.map_cons, List.sum_cons, ← Nat.add_assoc]
    apply hrest.sum_le
    · by_cases hlen : 0 < f.len
      · have := hbound f List.mem_cons_self hlen
        omega
      · omega
    · exact fun g hg ↦ hbound g (List.mem_cons_of_mem _ hg)

end Follow

/-! ## Pieces that are shared -/

/-- The bytes of the file in the piece. -/
def span (f : PartsFileMeta) (pieceLength p : Nat) : Nat × Nat :=
  let start := max (p * pieceLength) f.offsetInTorrent
  (start - f.offsetInTorrent,
    min ((p + 1) * pieceLength) (f.offsetInTorrent + f.len) - start)

namespace Laid

variable {files : List PartsFileMeta} {selected : List Nat} {pieceLength totalLength : Nat}
  {f : PartsFileMeta}

/-- A file with bytes has the piece of its first byte. -/
theorem hasPiece_div (h : Laid files pieceLength totalLength) (hf : f ∈ files) {pos : Nat}
    (hpos : pos < f.len) : f.HasPiece ((f.offsetInTorrent + pos) / pieceLength) := by
  rw [h.pieces f hf (by omega)]
  have hlow := Nat.div_mul_le_self (f.offsetInTorrent + pos) pieceLength
  have hhigh := Nat.lt_mul_div_succ (f.offsetInTorrent + pos) h.pieceLength_pos
  rw [Nat.mul_comm] at hhigh
  omega

/-- A file with bytes has its first and its last piece. -/
theorem hasPiece_ends (h : Laid files pieceLength totalLength) (hf : f ∈ files)
    (hlen : 0 < f.len) : f.HasPiece f.firstPiece ∧ f.HasPiece (f.endPiece - 1) := by
  have hsome := h.hasPiece_div hf hlen
  unfold PartsFileMeta.HasPiece at *
  omega

/-- The piece numbers and the end of a file stay in 64 bits. -/
theorem bounds (h : Laid files pieceLength totalLength) (hf : f ∈ files) (hlen : 0 < f.len) :
    f.offsetInTorrent + f.len ≤ maxU32 * maxU32 ∧
      ∀ p, f.HasPiece p → (p + 1) * pieceLength ≤ maxU32 * maxU32 := by
  have hmul : ∀ n, n ≤ f.endPiece → n * pieceLength ≤ maxU32 * maxU32 := fun n hn ↦
    Nat.mul_le_mul (hn.trans (h.endPiece_le f hf)) h.pieceLength_le
  refine ⟨?_, fun p hp ↦ hmul _ hp.2⟩
  obtain ⟨hfirst, hlast⟩ := h.hasPiece_ends hf hlen
  have hout : ¬ f.HasPiece f.endPiece := fun hin ↦ Nat.lt_irrefl _ hin.2
  rw [h.pieces f hf hlen] at hout hlast
  have hnext : f.endPiece - 1 + 1 = f.endPiece := by
    have := hfirst.2
    omega
  rw [hnext] at hlast
  have hmore : f.endPiece * pieceLength ≤ (f.endPiece + 1) * pieceLength :=
    Nat.mul_le_mul_right _ (Nat.le_succ _)
  have := hmul _ le_rfl
  omega

/-- A piece of the file that a selected file needs is its first or its last one. -/
theorem mem_candidates (h : Laid files pieceLength totalLength) {id p : Nat}
    (hf : files[id]? = some f) (hfree : id ∉ selected) (hlen : 0 < f.len) (hp : f.HasPiece p)
    (hneeded : Needed files selected p) : p ∈ f.candidates := by
  obtain ⟨⟨g, k⟩, hentry, hselected, -, hg⟩ := hneeded
  have hgk : files[k]? = some g := by simpa using List.mk_mem_zipIdx_iff_getElem?.mp hentry
  have hmem := List.mem_of_getElem? hf
  have hshared : p * pieceLength ≤ g.offsetInTorrent + g.len ∧
      g.offsetInTorrent ≤ (p + 1) * pieceLength := by
    by_cases hbytes : 0 < g.len
    · have := (h.pieces g (List.mem_of_getElem? hgk) hbytes p).mp hg
      omega
    · have := h.noBytes g (List.mem_of_getElem? hgk) (by omega) p hg
      omega
  obtain ⟨hfirst, hlast⟩ := h.hasPiece_ends hmem hlen
  rw [h.pieces f hmem hlen] at hfirst hlast
  have hp' := hp
  have hle : ∀ {a b : Nat}, a * pieceLength < (b + 1) * pieceLength → a ≤ b := fun hab ↦
    Nat.le_of_lt_succ (Nat.lt_of_mul_lt_mul_right hab)
  have hne : k ≠ id := fun heq ↦ hfree (heq ▸ hselected)
  have hends : p = f.firstPiece ∨ p = f.endPiece - 1 := by
    unfold PartsFileMeta.HasPiece at hp'
    rcases h.follow.disjoint hne hgk hf with hbefore | hafter
    · -- the other file ends where this one starts, or before
      have := hle (show p * pieceLength < (f.firstPiece + 1) * pieceLength by omega)
      omega
    · have := hle (show (f.endPiece - 1) * pieceLength < (p + 1) * pieceLength by omega)
      omega
  unfold PartsFileMeta.candidates
  simp only
  split
  · simpa using hends
  · simp only [List.mem_singleton]
    omega

/-- The byte of the file is in the span of its piece, and in no other. -/
theorem mem_span (h : Laid files pieceLength totalLength) (hf : f ∈ files) (hlen : 0 < f.len)
    {p : Nat} (hp : f.HasPiece p) (pos : Nat) :
    (span f pieceLength p).1 ≤ pos ∧
        pos < (span f pieceLength p).1 + (span f pieceLength p).2 ↔
      pos < f.len ∧ p = (f.offsetInTorrent + pos) / pieceLength := by
  rw [h.pieces f hf hlen] at hp
  have hdiv : p = (f.offsetInTorrent + pos) / pieceLength ↔
      p * pieceLength ≤ f.offsetInTorrent + pos ∧
        f.offsetInTorrent + pos < (p + 1) * pieceLength := by
    rw [eq_comm, Nat.div_eq_iff h.pieceLength_pos]
    have hsucc : (p + 1) * pieceLength = p * pieceLength + pieceLength := Nat.succ_mul p pieceLength
    have hpos := h.pieceLength_pos
    omega
  have hsucc : p * pieceLength ≤ (p + 1) * pieceLength := Nat.mul_le_mul_right _ (Nat.le_succ p)
  rw [hdiv]
  simp only [span]
  omega

end Laid

/-! ## The segments -/

/-- A product of 32-bit numbers fits 64 bits. -/
theorem maxU32_mul_le : maxU32 * maxU32 ≤ maxU64 := by decide

/-- The segments of a file, where no number leaves 64 bits. -/
def fileSpans (files : List PartsFileMeta) (selected : List Nat) (pieceLength : Nat)
    (entry : PartsFileMeta × Nat) : List (Nat × Nat × Nat) :=
  if entry.2 ∈ selected ∨ entry.1.padding ∨ entry.1.len = 0 then []
  else (entry.1.candidates.filter fun p ↦ Needed files selected p).map fun p ↦
    (entry.2, span entry.1 pieceLength p)

private theorem fileSpans_fst {files : List PartsFileMeta} {selected : List Nat} {pieceLength : Nat}
    (entry : PartsFileMeta × Nat) : ∀ s ∈ fileSpans files selected pieceLength entry,
      s.1 = entry.2 := by
  intro s hs
  unfold fileSpans at hs
  split at hs
  · cases hs
  · obtain ⟨p, -, rfl⟩ := List.mem_map.mp hs
    rfl

namespace PartsFileMeta

variable {f : PartsFileMeta}

private theorem candidates_pairwise (h : f.firstPiece < f.endPiece) :
    f.candidates.Pairwise (· < ·) := by
  unfold candidates
  simp only
  split
  · simp only [List.pairwise_cons, List.mem_singleton, forall_eq, List.not_mem_nil, false_imp_iff,
      implies_true, List.Pairwise.nil, and_true]
    omega
  · exact List.pairwise_singleton _ _

/-- The pieces at the ends of a file are pieces of the file. -/
theorem candidates_hasPiece (h : f.firstPiece < f.endPiece) : ∀ p ∈ f.candidates, f.HasPiece p := by
  intro p hp
  unfold candidates at hp
  unfold HasPiece
  simp only at hp
  split at hp
  · simp only [List.mem_cons, List.not_mem_nil, or_false] at hp
    omega
  · simp only [List.mem_singleton] at hp
    omega

end PartsFileMeta

namespace Laid

variable {files : List PartsFileMeta} {selected : List Nat} {pieceLength totalLength : Nat}
  {f : PartsFileMeta}

/-- A file with bytes has a piece. -/
theorem firstPiece_lt (h : Laid files pieceLength totalLength) (hf : f ∈ files)
    (hlen : 0 < f.len) : f.firstPiece < f.endPiece :=
  (h.hasPiece_ends hf hlen).1.2

/-- The span of a piece of the file has a byte and lies in the file. -/
theorem span_bounds (h : Laid files pieceLength totalLength) (hf : f ∈ files) (hlen : 0 < f.len)
    {p : Nat} (hp : f.HasPiece p) : 0 < (span f pieceLength p).2 ∧
      (span f pieceLength p).1 + (span f pieceLength p).2 ≤ f.len := by
  rw [h.pieces f hf hlen] at hp
  have hstep : p * pieceLength + pieceLength = (p + 1) * pieceLength := (Nat.succ_mul _ _).symm
  have hpos := h.pieceLength_pos
  simp only [span]
  omega

/-- The spans of two pieces are in the order of the pieces. -/
theorem span_le (h : Laid files pieceLength totalLength) (hf : f ∈ files) (hlen : 0 < f.len)
    {p q : Nat} (hp : f.HasPiece p) (hpq : p < q) :
    (span f pieceLength p).1 + (span f pieceLength p).2 ≤ (span f pieceLength q).1 := by
  rw [h.pieces f hf hlen] at hp
  have hstep : (p + 1) * pieceLength ≤ q * pieceLength := Nat.mul_le_mul_right _ hpq
  have hsucc : p * pieceLength + pieceLength = (p + 1) * pieceLength := (Nat.succ_mul _ _).symm
  have hpos := h.pieceLength_pos
  simp only [span]
  omega

/-- What the code computes for a piece of the file. -/
theorem pieceSegment_eq (h : Laid files pieceLength totalLength) (hf : f ∈ files)
    (hlen : 0 < f.len) {p : Nat} (hp : f.HasPiece p) :
    pieceSegment f pieceLength totalLength p = .ok [span f pieceLength p] := by
  obtain ⟨hend, hpieces⟩ := h.bounds hf hlen
  have hpiece := hpieces p hp
  have hmax := maxU32_mul_le
  have htotal := (h.follow.bounds f hf).2
  rw [Nat.zero_add, ← h.total] at htotal
  rw [h.pieces f hf hlen] at hp
  have hsucc : p * pieceLength + pieceLength = (p + 1) * pieceLength := (Nat.succ_mul _ _).symm
  have hpos := h.pieceLength_pos
  rw [pieceSegment, times_of_le (by omega), ok_bind, plus_of_le (by omega), ok_bind,
    plus_of_le (by omega), ok_bind, hsucc]
  have hstop : min (min ((p + 1) * pieceLength) totalLength) (f.offsetInTorrent + f.len) =
      min ((p + 1) * pieceLength) (f.offsetInTorrent + f.len) := by omega
  dsimp only
  rw [hstop, if_pos (by omega), span]

/-- What the code computes for a file. -/
theorem fileSegments_eq (h : Laid files pieceLength totalLength) {entry : PartsFileMeta × Nat}
    (hentry : entry ∈ files.zipIdx) :
    fileSegments files selected pieceLength totalLength entry =
      .ok (fileSpans files selected pieceLength entry) := by
  obtain ⟨f, id⟩ := entry
  have hf : f ∈ files := List.mem_of_getElem? (List.mk_mem_zipIdx_iff_getElem?.mp hentry)
  unfold fileSegments fileSpans
  by_cases hskip : id ∈ selected ∨ f.padding ∨ f.len = 0
  · have hcode : id ∈ selected ∨ f.padding ∨ f.len = 0 ∨ f.endPiece ≤ f.firstPiece := by tauto
    simp only
    rw [if_pos hskip, if_pos hcode]
  · have hlen : 0 < f.len := by
      have : ¬ f.len = 0 := fun hzero ↦ hskip (.inr (.inr hzero))
      omega
    have hpieces := h.firstPiece_lt hf hlen
    have hcode : ¬ (id ∈ selected ∨ f.padding ∨ f.len = 0 ∨ f.endPiece ≤ f.firstPiece) := by
      rintro (hin | hpadding | hzero | hempty)
      · exact hskip (.inl hin)
      · exact hskip (.inr (.inl hpadding))
      · exact hskip (.inr (.inr hzero))
      · omega
    have hspans : ∀ p ∈ f.candidates.filter fun p ↦ Needed files selected p,
        pieceSegment f pieceLength totalLength p = .ok [span f pieceLength p] := fun p hp ↦
      h.pieceSegment_eq hf hlen (f.candidates_hasPiece hpieces p (List.mem_filter.mp hp).1)
    simp only
    rw [if_neg hskip, if_neg hcode, mapM_of_ok hspans, ok_bind]
    simp [← List.flatMap_def, ← List.map_eq_flatMap]

/-- What the code computes for a torrent. -/
theorem boundarySegments_eq (h : Laid files pieceLength totalLength) :
    boundarySegments files selected pieceLength totalLength =
      .ok (files.zipIdx.flatMap (fileSpans files selected pieceLength)) := by
  rw [boundarySegments, mapM_of_ok fun entry hentry ↦ h.fileSegments_eq hentry, ok_bind,
    ← List.flatMap_def]

/-- The segments of one file. -/
theorem filter_segments {segs : List (Nat × Nat × Nat)} {id : Nat}
    (hsegs : segs = files.zipIdx.flatMap (fileSpans files selected pieceLength)) :
    segs.filter (fun s ↦ s.1 = id) =
      (files[id]?.map fun f ↦ fileSpans files selected pieceLength (f, id)).getD [] := by
  have hall := @filter_flatMap_zipIdx _ _ (fileSpans files selected pieceLength) Prod.fst
    fileSpans_fst files 0 id
  simpa [hsegs] using hall

/-- The segments of a file cover each byte of it that is wanted once, and no other. -/
theorem countP_fileSpans (h : Laid files pieceLength totalLength) {id : Nat}
    (hf : files[id]? = some f) (pos : Nat) :
    (fileSpans files selected pieceLength (f, id)).countP (fun s ↦ Covers id pos s) =
      if Wanted files selected pieceLength id pos then 1 else 0 := by
  have hmem := List.mem_of_getElem? hf
  have hwanted := @wanted_iff files selected pieceLength id pos f hf
  by_cases hskip : id ∈ selected ∨ f.padding ∨ f.len = 0
  · rw [fileSpans, if_pos hskip, if_neg, List.countP_nil]
    rw [hwanted]
    rintro ⟨hfree, hpadding, hpos, -⟩
    rcases hskip with hin | hpad | hzero
    · exact hfree hin
    · rw [hpadding] at hpad
      cases hpad
    · omega
  · have hfree : id ∉ selected := fun hin ↦ hskip (.inl hin)
    have hpadding : f.padding = false := by
      cases hpad : f.padding
      · rfl
      · exact absurd (.inr (.inl hpad)) hskip
    have hlen : 0 < f.len := by
      have : ¬ f.len = 0 := fun hzero ↦ hskip (.inr (.inr hzero))
      omega
    have hpieces := h.firstPiece_lt hmem hlen
    have hcovers : ∀ p ∈ f.candidates.filter (fun p ↦ Needed files selected p),
        Covers id pos (id, span f pieceLength p) ↔
          pos < f.len ∧ p = (f.offsetInTorrent + pos) / pieceLength := by
      intro p hp
      have hpiece := f.candidates_hasPiece hpieces p (List.mem_filter.mp hp).1
      simpa [Covers] using h.mem_span hmem hlen hpiece pos
    rw [fileSpans, if_neg hskip, List.countP_map]
    by_cases hpos : pos < f.len
    · have hnodup : (f.candidates.filter fun p ↦ Needed files selected p).Nodup :=
        ((f.candidates_pairwise hpieces).imp Nat.ne_of_lt).filter _
      have hcount : (f.candidates.filter fun p ↦ Needed files selected p).countP
            ((fun s ↦ decide (Covers id pos s)) ∘ fun p ↦ (id, span f pieceLength p)) =
          (f.candidates.filter fun p ↦ Needed files selected p).count
            ((f.offsetInTorrent + pos) / pieceLength) := by
        rw [List.count]
        apply List.countP_congr
        intro p hp
        simpa [hpos] using hcovers p hp
      rw [hcount, hnodup.count]
      refine if_congr ?_ rfl rfl
      rw [hwanted, List.mem_filter, decide_eq_true_eq]
      constructor
      · rintro ⟨-, hneeded⟩
        exact ⟨hfree, hpadding, hpos, hneeded⟩
      · rintro ⟨-, -, -, hneeded⟩
        exact ⟨h.mem_candidates hf hfree hlen (h.hasPiece_div hmem hpos) hneeded, hneeded⟩
    · rw [if_neg fun hin ↦ hpos (hwanted.mp hin).2.2.1, List.countP_eq_zero]
      intro p hp
      simpa [hpos] using hcovers p hp

/-- The segments of a torrent cover each byte that is wanted once, and no other. -/
theorem countP_segments (h : Laid files pieceLength totalLength) {segs : List (Nat × Nat × Nat)}
    (hsegs : segs = files.zipIdx.flatMap (fileSpans files selected pieceLength)) (id pos : Nat) :
    segs.countP (fun s ↦ Covers id pos s) =
      if Wanted files selected pieceLength id pos then 1 else 0 := by
  have hfilter : segs.countP (fun s ↦ Covers id pos s) =
      (segs.filter fun s ↦ s.1 = id).countP fun s ↦ Covers id pos s := by
    rw [List.countP_filter]
    apply List.countP_congr
    intro s _
    simp only [Bool.and_eq_true, decide_eq_true_eq]
    exact ⟨fun hs ↦ ⟨hs, hs.1⟩, And.left⟩
  rw [hfilter, filter_segments hsegs]
  cases hf : files[id]? with
  | none =>
    rw [if_neg]
    · rfl
    · rintro ⟨f, hsome, -⟩
      rw [hf] at hsome
      cases hsome
  | some f => exact h.countP_fileSpans hf pos

/-- The segments of one file are in order and lie in it. -/
theorem fileSpans_inOrder (h : Laid files pieceLength totalLength) {id : Nat} (hf : f ∈ files) :
    (fileSpans files selected pieceLength (f, id)).Pairwise (fun a b ↦ a.2.1 + a.2.2 ≤ b.2.1) ∧
      ∀ s ∈ fileSpans files selected pieceLength (f, id), s.2.1 + s.2.2 ≤ f.len := by
  by_cases hskip : id ∈ selected ∨ f.padding ∨ f.len = 0
  · rw [fileSpans, if_pos hskip]
    exact ⟨.nil, by simp⟩
  · have hlen : 0 < f.len := by
      have : ¬ f.len = 0 := fun hzero ↦ hskip (.inr (.inr hzero))
      omega
    have hpieces := h.firstPiece_lt hf hlen
    have hpiece : ∀ p ∈ f.candidates.filter (fun p ↦ Needed files selected p), f.HasPiece p :=
      fun p hp ↦ f.candidates_hasPiece hpieces p (List.mem_filter.mp hp).1
    rw [fileSpans, if_neg hskip, List.pairwise_map, List.forall_mem_map]
    refine ⟨?_, fun p hp ↦ (h.span_bounds hf hlen (hpiece p hp)).2⟩
    apply ((f.candidates_pairwise hpieces).filter _).imp_of_mem
    intro p q hp _ hpq
    exact h.span_le hf hlen (hpiece p hp) hpq

end Laid

/-- Intervals in order between two points are together no longer than what is between. -/
theorem sum_le_of_inOrder {upper : Nat} : ∀ {l : List (Nat × Nat × Nat)} {lower : Nat},
    lower ≤ upper → l.Pairwise (fun a b ↦ a.2.1 + a.2.2 ≤ b.2.1) →
      (∀ s ∈ l, lower ≤ s.2.1 ∧ s.2.1 + s.2.2 ≤ upper) →
        lower + (l.map fun s ↦ s.2.2).sum ≤ upper
  | [], _, hle, _, _ => by simpa
  | s :: l, lower, _, horder, hbounds => by
    obtain ⟨hbefore, hrest⟩ := List.pairwise_cons.mp horder
    obtain ⟨hlow, hhigh⟩ := hbounds s List.mem_cons_self
    have hsum := @sum_le_of_inOrder upper l (s.2.1 + s.2.2) hhigh hrest fun t ht ↦
      ⟨hbefore t ht, (hbounds t (List.mem_cons_of_mem _ ht)).2⟩
    rw [List.map_cons, List.sum_cons]
    omega

namespace Laid

variable {files : List PartsFileMeta} {selected : List Nat} {pieceLength totalLength : Nat}

/-- The blob is no longer than the torrent. -/
theorem sum_segments_le (h : Laid files pieceLength totalLength) {segs : List (Nat × Nat × Nat)}
    (hsegs : segs = files.zipIdx.flatMap (fileSpans files selected pieceLength)) :
    (segs.map fun s ↦ s.2.2).sum ≤ totalLength := by
  have hall : ∀ {l : List PartsFileMeta} {n : Nat}, (∀ f ∈ l, f ∈ files) →
      (((l.zipIdx n).flatMap (fileSpans files selected pieceLength)).map fun s ↦ s.2.2).sum ≤
        (l.map PartsFileMeta.len).sum := by
    intro l
    induction l with
    | nil => simp
    | cons f l ih =>
      intro n hl
      obtain ⟨horder, hbound⟩ := @fileSpans_inOrder files selected _ _ f h n
        (hl f List.mem_cons_self)
      have hfirst := sum_le_of_inOrder (Nat.zero_le _) horder fun s hs ↦
        ⟨Nat.zero_le _, hbound s hs⟩
      have hrest := @ih (n + 1) fun g hg ↦ hl g (List.mem_cons_of_mem _ hg)
      rw [List.zipIdx_cons, List.flatMap_cons, List.map_append, List.sum_append, List.map_cons,
        List.sum_cons]
      omega
  rw [hsegs, h.total]
  exact hall fun f hf ↦ hf

/-- The torrent ends in 64 bits, with room for a header. -/
theorem totalLength_le (h : Laid files pieceLength totalLength) :
    totalLength ≤ maxU32 * maxU32 := by
  have hsum := h.follow.sum_le (Nat.zero_le _) fun f hf hlen ↦ (h.bounds hf hlen).1
  rwa [Nat.zero_add, ← h.total] at hsum

end Laid

/-! ## Writing and loading -/

section Sidecar

variable {codec : HeaderCodec} {stage : Path → Except String (List UInt8)}
  {req : SidecarWriteRequest}

/-- The byte of a file as it was staged. -/
def stagedByte (stage : Path → Except String (List UInt8)) (req : SidecarWriteRequest)
    (id pos : Nat) : Option UInt8 :=
  req.files[id]?.bind fun f ↦ (stage (req.stageDir.join f.relativePath)).toOption.bind (·[pos]?)

/-- Copying goes on to the end, a buffer at a time, or fails. -/
theorem copyLoop_ok {srcPath : Path} {src : List UInt8} :
    ∀ {turns pos remaining : Nat} {data : List UInt8}, remaining ≤ turns →
      copyLoop srcPath src turns pos remaining = .ok data →
        data = (src.drop pos).take remaining ∧ data.length = remaining
  | 0, pos, remaining, data, hturns, h => by
    cases h
    have hzero : remaining = 0 := by omega
    simp [hzero]
  | turns + 1, pos, remaining, data, hturns, h => by
    rw [copyLoop] at h
    by_cases hdone : remaining = 0
    · rw [if_pos hdone] at h
      cases h
      simp [hdone]
    rw [if_neg hdone] at h
    obtain ⟨_, hlong, h⟩ := bind_eq_ok.mp h
    rw [ensure_eq_ok] at hlong
    obtain ⟨rest, hrest, h⟩ := bind_eq_ok.mp h
    cases h
    have hchunk : 0 < min remaining copyBufLen := Nat.lt_min.mpr ⟨by omega, by decide⟩
    obtain ⟨rfl, hlength⟩ := copyLoop_ok (by omega) hrest
    have hsplit : remaining = min remaining copyBufLen + (remaining - min remaining copyBufLen) := by
      omega
    constructor
    · conv_rhs => rw [hsplit, List.take_add, List.drop_drop]
    · rw [List.length_append, hlength, List.length_take, List.length_drop]
      omega

/-- A segment that is copied has the bytes of its file as they were staged. -/
theorem copySegment_ok {id offset len : Nat} {data : List UInt8}
    (h : copySegment stage req (id, offset, len) = .ok data) :
    data.length = len ∧ ∀ i < len, data[i]? = stagedByte stage req id (offset + i) := by
  unfold copySegment at h
  cases hf : req.files[id]? with
  | none => simp [hf] at h
  | some f =>
    simp only [hf] at h
    obtain ⟨src, hsrc, h⟩ := bind_eq_ok.mp h
    rw [relay_eq_ok] at hsrc
    obtain ⟨rfl, hlength⟩ := copyLoop_ok le_rfl h
    refine ⟨hlength, fun i hi ↦ ?_⟩
    rw [List.getElem?_take_of_lt hi, List.getElem?_drop]
    simp [stagedByte, hf, hsrc, Except.toOption]

/-- The segments of a file that are written contain the bytes of the file as they were staged. The
induction is on the segments, with the blob from the first of them on. -/
theorem contents_written {bytes : List UInt8} {blobBase : Nat} (id pos : Nat) :
    ∀ {segs : List (Nat × Nat × Nat)} {cursor : Nat} {entries : List SegmentEntry}
      {copied : List (List UInt8)}, segmentEntries segs cursor = .ok entries →
        segs.mapM (copySegment stage req) = .ok copied →
        bytes.drop (blobBase + cursor) = copied.flatten →
          contents bytes (specsOf blobBase entries id) pos =
            if ∃ s ∈ segs, Covers id pos s then stagedByte stage req id pos else none
  | [], cursor, entries, copied, hentries, _, _ => by
    cases hentries
    simp [specsOf, contents]
  | (k, offset, len) :: segs, cursor, entries, copied, hentries, hcopied, hblob => by
    rw [segmentEntries, bind_eq_ok] at hentries
    obtain ⟨next, hnext, hloop⟩ := hentries
    obtain ⟨-, rfl⟩ := plus_eq_ok.mp hnext
    obtain ⟨rest, hrest, hentries⟩ := bind_eq_ok.mp hloop
    cases hentries
    rw [List.mapM_cons, bind_eq_ok] at hcopied
    obtain ⟨data, hdata, hcopied⟩ := hcopied
    obtain ⟨others, hothers, hcopied⟩ := bind_eq_ok.mp hcopied
    cases hcopied
    obtain ⟨hlength, hbytes⟩ := copySegment_ok hdata
    rw [List.flatten_cons] at hblob
    have hbehind : bytes.drop (blobBase + (cursor + len)) = others.flatten := by
      rw [← Nat.add_assoc, ← List.drop_drop, hblob, ← hlength, List.drop_left]
    have ih := contents_written id pos hrest hothers hbehind
    have hskip : ¬ Covers id pos (k, offset, len) →
        ((∃ s ∈ (k, offset, len) :: segs, Covers id pos s) ↔ ∃ s ∈ segs, Covers id pos s) := by
      intro hnot
      simp [hnot, or_and_right, exists_or]
    by_cases hid : k = id
    · subst hid
      have hspecs : specsOf blobBase
            ({ fileId := k, offset, len, blobOffset := cursor } :: rest) k =
          { offset, len, blobPos := blobBase + cursor } :: specsOf blobBase rest k := by
        simp [specsOf, SegmentEntry.spec]
      rw [hspecs, contents]
      by_cases hin : offset ≤ pos ∧ pos < offset + len
      · have hmem : ∃ s ∈ (k, offset, len) :: segs, Covers k pos s :=
          ⟨_, List.mem_cons_self, rfl, hin⟩
        have hfront : pos - offset < data.length := by omega
        have hread : bytes[blobBase + cursor + (pos - offset)]? =
            (bytes.drop (blobBase + cursor))[pos - offset]? := List.getElem?_drop.symm
        rw [if_pos hin, if_pos hmem, hread, hblob, List.getElem?_append_left hfront,
          hbytes _ (by omega), Nat.add_sub_cancel' hin.1]
      · rw [if_neg hin, ih]
        exact if_congr (hskip fun hcovers ↦ hin hcovers.2).symm rfl rfl
    · have hspecs : specsOf blobBase
            ({ fileId := k, offset, len, blobOffset := cursor } :: rest) id =
          specsOf blobBase rest id := by
        simp [specsOf, hid]
      rw [hspecs, ih]
      exact if_congr (hskip fun hcovers ↦ hid hcovers.1).symm rfl rfl

/-- The copied segments are as long as the segments. -/
theorem length_copied : ∀ {segs : List (Nat × Nat × Nat)} {copied : List (List UInt8)},
    segs.mapM (copySegment stage req) = .ok copied →
      copied.flatten.length = (segs.map fun s ↦ s.2.2).sum
  | [], copied, h => by
    cases h
    rfl
  | (k, offset, len) :: segs, copied, h => by
    rw [List.mapM_cons, bind_eq_ok] at h
    obtain ⟨data, hdata, h⟩ := h
    obtain ⟨others, hothers, h⟩ := bind_eq_ok.mp h
    cases h
    rw [List.flatten_cons, List.length_append, (copySegment_ok hdata).1, length_copied hothers,
      List.map_cons, List.sum_cons]

/-- The entries of the header name the segments. -/
theorem map_segmentEntries : ∀ {segs : List (Nat × Nat × Nat)} {cursor : Nat}
    {entries : List SegmentEntry}, segmentEntries segs cursor = .ok entries →
      entries.map (fun e ↦ (e.fileId, e.offset, e.len)) = segs
  | [], _, entries, h => by
    cases h
    rfl
  | (k, offset, len) :: segs, cursor, entries, h => by
    rw [segmentEntries, bind_eq_ok] at h
    obtain ⟨next, -, h⟩ := h
    obtain ⟨rest, hrest, h⟩ := bind_eq_ok.mp h
    cases h
    rw [List.map_cons, map_segmentEntries hrest]

/-- The segments of a file in the sidecar are those that the header names. -/
theorem map_specsOf {segs : List (Nat × Nat × Nat)} {cursor blobBase : Nat}
    {entries : List SegmentEntry} (h : segmentEntries segs cursor = .ok entries) (id : Nat) :
    (specsOf blobBase entries id).map (fun s ↦ (id, s.offset, s.len)) =
      segs.filter fun s ↦ s.1 = id := by
  rw [← map_segmentEntries h, List.filter_map, specsOf, List.map_map]
  apply List.map_congr_left
  intro e he
  have hid := (List.mem_filter.mp he).2
  simp only [decide_eq_true_eq] at hid
  simp [SegmentEntry.spec, hid]

/-- What a sidecar that is written is put together from. -/
theorem writeSidecar_ok {bytes : List UInt8} {count : Nat}
    (h : writeSidecar codec stage req = .ok (bytes, count)) :
    ∃ segs header json copied, boundarySegments req.files (req.selected.map Prod.fst)
        req.pieceLength req.totalLength = .ok segs ∧
      segmentEntries segs 0 = .ok header.segments ∧ codec.toVec header = .ok json ∧
      json.length ≤ maxU32 ∧ segs.mapM (copySegment stage req) = .ok copied ∧
      bytes = partsMagic ++ toLeBytes json.length ++ json ++ copied.flatten := by
  rw [writeSidecar, bind_eq_ok] at h
  obtain ⟨segs, hsegs, h⟩ := h
  obtain ⟨selected, -, h⟩ := bind_eq_ok.mp h
  obtain ⟨segments, hsegments, h⟩ := bind_eq_ok.mp h
  obtain ⟨json, hjson, h⟩ := bind_eq_ok.mp h
  obtain ⟨_, hlong, h⟩ := bind_eq_ok.mp h
  obtain ⟨_, -, h⟩ := bind_eq_ok.mp h
  obtain ⟨copied, hcopied, h⟩ := bind_eq_ok.mp h
  cases h
  exact ⟨segs, _, json, copied, hsegs, hsegments, relay_eq_ok.mp hjson, ensure_eq_ok.mp hlong,
    hcopied, rfl⟩

/-- A byte of a segment that is copied was staged. -/
theorem stagedByte_isSome {segs : List (Nat × Nat × Nat)} {copied : List (List UInt8)}
    (h : segs.mapM (copySegment stage req) = .ok copied) {id pos : Nat}
    (hcovered : ∃ s ∈ segs, Covers id pos s) : (stagedByte stage req id pos).isSome := by
  obtain ⟨⟨k, offset, len⟩, hs, rfl, hlow, hhigh⟩ := hcovered
  obtain ⟨i, hi⟩ := List.getElem?_of_mem hs
  have hcopy := getElem?_of_mapM h i
  rw [hi, Option.map_some] at hcopy
  cases hdata : copied[i]? with
  | none => simp [hdata] at hcopy
  | some data =>
    rw [hdata, Option.map_some, Option.some_inj] at hcopy
    obtain ⟨hlength, hbytes⟩ := copySegment_ok hcopy
    simp only at hlow hhigh
    have hbyte := hbytes (pos - offset) (by omega)
    rw [Nat.add_sub_cancel' hlow] at hbyte
    rw [← hbyte, List.getElem?_eq_getElem (by omega), Option.isSome_some]

variable {selected : List Nat} {bytes : List UInt8} {count : Nat} {windows : Bool}
  {saveDir : Path} {layout : SeedLayout}

/-- The segments of a file after loading: in order, in the blob, without an overflow, and with the
bytes that are wanted as they were staged. -/
structure Kept (stage : Path → Except String (List UInt8)) (req : SidecarWriteRequest)
    (selected : List Nat) (bytes : List UInt8) (id : Nat) (segments : List SegSpec) : Prop where
  size : bytes.length ≤ maxU64
  inOrder : InOrder segments
  fits : ∀ s ∈ segments, s.Ends ∧ s.Stored 0 bytes.length
  contents : ∀ pos, contents bytes segments pos =
    if Wanted req.files selected req.pieceLength id pos then stagedByte stage req id pos else none
  staged : ∀ pos, Wanted req.files selected req.pieceLength id pos →
    (stagedByte stage req id pos).isSome

/-- What is written and loaded is kept. -/
theorem kept_of_load (hcodec : codec.RoundTrips)
    (hlaid : Laid req.files req.pieceLength req.totalLength)
    (hselected : req.selected.map Prod.fst = selected)
    (hwrite : writeSidecar codec stage req = .ok (bytes, count))
    (hload : loadSeedLayout codec windows req.sidecarPath saveDir (.file bytes) =
      .ok (some layout)) {id : Nat} {f : PartsFileMeta} (hf : req.files[id]? = some f) :
    Kept stage req selected bytes id (layout.segmentsOf id) := by
  obtain ⟨segs, header, json, copied, hsegs, hentries, hjson, hlong, hcopied, hbytes⟩ :=
    writeSidecar_ok hwrite
  rw [hselected, hlaid.boundarySegments_eq, Except.ok.injEq] at hsegs
  obtain ⟨header', blobBase, hread⟩ := exists_readHeader hload
  have hparts := hread
  rw [hbytes, readHeader_parts_eq_ok hlong, hcodec header json hjson, Except.ok.injEq] at hparts
  obtain ⟨⟨-, hshort⟩, rfl, -, rfl⟩ := hparts
  obtain ⟨-, -, hbounds, hspecs⟩ := loadSeedLayout_ok hload hread
  obtain ⟨-, hbase⟩ := readHeader_base hread
  have hmem := List.mem_of_getElem? hf
  have hmap := @map_specsOf segs 0 (12 + json.length) header.segments hentries id
  rw [Laid.filter_segments hsegs.symm, hf, Option.map_some, Option.getD_some] at hmap
  obtain ⟨horder, hends⟩ := @Laid.fileSpans_inOrder _ selected _ _ f hlaid id hmem
  rw [← hmap, List.pairwise_map] at horder
  rw [← hmap, List.forall_mem_map] at hends
  have hsorted : layout.segmentsOf id = specsOf (12 + json.length) header.segments id := by
    rw [hspecs]
    apply List.Pairwise.insertionSort_eq
    exact horder.imp fun h ↦ by simp only at h; omega
  rw [hsorted]
  have hcovered : ∀ pos, (∃ s ∈ segs, Covers id pos s) ↔
      Wanted req.files selected req.pieceLength id pos := by
    intro pos
    have hcount := hlaid.countP_segments hsegs.symm id pos
    have hsome : (∃ s ∈ segs, Covers id pos s) ↔ 0 < segs.countP fun s ↦ Covers id pos s := by
      simp [List.countP_pos_iff]
    rw [hsome, hcount]
    split
    · next hwanted => simpa using hwanted
    · next hwanted => simpa using hwanted
  have hend := (hlaid.follow.bounds f hmem).2
  have htotal := hlaid.totalLength_le
  have hmax : maxU32 * maxU32 + (12 + maxHeaderLen) ≤ maxU64 := by decide
  constructor
  · have hblob := hlaid.sum_segments_le hsegs.symm
    rw [hbytes]
    simp only [List.length_append, length_copied hcopied, toLeBytes, List.length_cons,
      List.length_nil, show partsMagic.length = 8 from rfl]
    omega
  · exact horder
  · intro s hs
    have hin := hends s hs
    obtain ⟨e, he, rfl⟩ := List.mem_map.mp hs
    obtain ⟨-, hbound⟩ := hbounds e (List.mem_filter.mp he).1
    simp only [SegmentEntry.spec, SegSpec.Ends, SegSpec.Stored] at hin ⊢
    rw [hlaid.total] at htotal
    omega
  · intro pos
    have hdrop : bytes.drop (12 + json.length + 0) = copied.flatten := by
      have hfront : (partsMagic ++ toLeBytes json.length ++ json).length = 12 + json.length + 0 := by
        simp only [toLeBytes, List.length_append, List.length_cons, List.length_nil,
          show partsMagic.length = 8 from rfl]
        omega
      rw [hbytes, ← hfront, List.drop_left]
    rw [contents_written id pos hentries hcopied hdrop]
    exact if_congr (hcovered pos) rfl rfl
  · intro pos hpos
    exact stagedByte_isSome hcopied ((hcovered pos).mpr hpos)

end Sidecar

end Engine.PartFile
