import Mathlib.Data.List.Forall2
import Flowchart.Proofs.PathText.Spellings

/-!
# Path text that is written and read again

The writer gives every segment one command, with a move before it where it does not start at the
point where the segment before it ended. From this text the reader finds the starting points again,
so that what was written is what is read.
-/

namespace Flowchart

/-! ## Whole segments -/

/-- The points of a segment are whole. -/
inductive IsWholeSegment : Segment Float32 → Segment Int → Prop where
  /-- a line -/
  | line {p q : Point Float32} {k l : Point Int} (hp : Single.IsWholePoint p k)
    (hq : Single.IsWholePoint q l) : IsWholeSegment (.line p q) (.line k l)
  /-- a quadratic curve -/
  | quad {p c q : Point Float32} {k i l : Point Int} (hp : Single.IsWholePoint p k)
    (hc : Single.IsWholePoint c i) (hq : Single.IsWholePoint q l) :
    IsWholeSegment (.quad p c q) (.quad k i l)
  /-- a cubic curve -/
  | cubic {p c₁ c₂ q : Point Float32} {k i j l : Point Int} (hp : Single.IsWholePoint p k)
    (hc₁ : Single.IsWholePoint c₁ i) (hc₂ : Single.IsWholePoint c₂ j)
    (hq : Single.IsWholePoint q l) : IsWholeSegment (.cubic p c₁ c₂ q) (.cubic k i j l)

/-- No coordinate is larger than this. -/
def gridBound : Int := 100000

/-- Both coordinates are within the bound. -/
def Point.InGrid (p : Point Int) : Prop := |p.x| ≤ gridBound ∧ |p.y| ≤ gridBound

instance (p : Point Int) : Decidable p.InGrid :=
  inferInstanceAs (Decidable (|p.x| ≤ gridBound ∧ |p.y| ≤ gridBound))

section Whole

variable {s : Segment Float32} {t : Segment Int} {p : Point Float32} {k : Point Int}

/-- A segment that is whole has a whole point at its start. -/
theorem IsWholeSegment.start (h : IsWholeSegment s t) : Single.IsWholePoint s.start t.start := by
  cases h <;> assumption

theorem IsWholeSegment.stop (h : IsWholeSegment s t) : Single.IsWholePoint s.stop t.stop := by
  cases h <;> assumption

end Whole

/-! ## The commands of the writer -/

/-- The command that draws a segment. -/
def Segment.command : Segment Int → PathCommand
  | .line _ p => .line p
  | .quad _ c p => .quad c p
  | .cubic _ c₁ c₂ p => .cubic c₁ c₂ p

/-- The commands that draw segments; `cursor` is where the pen is known to be. -/
def redraw (cursor : Option (Point Int)) : List (Segment Int) → List PathCommand
  | [] => []
  | t :: ts =>
    let tail := t.command :: redraw (some t.stop) ts
    if cursor = some t.start then tail else .move t.start :: tail

/-- The command of a segment draws the segment when the pen stands at its start, and leaves the pen
at its end. -/
theorem drawing_command (t : Segment Int) (partStart : Point Int) (commands : List PathCommand) :
    (Pen.mk t.start partStart).drawing (t.command :: commands) =
      t :: (Pen.mk t.stop partStart).drawing commands := by
  cases t <;> rfl

/-- **The commands draw the segments**, wherever the pen is at the start: a move is put in where it
is not at the start of a segment. -/
theorem drawing_redraw (ts : List (Segment Int)) {cursor : Option (Point Int)} {pen : Pen}
    (hcursor : ∀ k ∈ cursor, pen.position = k) : pen.drawing (redraw cursor ts) = ts := by
  induction ts generalizing cursor pen with
  | nil => rfl
  | cons t ts ih =>
    obtain ⟨position, partStart⟩ := pen
    rw [redraw]
    split
    next hstart =>
      obtain rfl : position = t.start := hcursor _ hstart
      rw [drawing_command, ih]
      rintro _ ⟨⟩
      rfl
    next =>
      rw [Pen.drawing]
      change [] ++ (Pen.mk t.start t.start).drawing _ = _
      rw [List.nil_append, drawing_command, ih]
      rintro _ ⟨⟩
      rfl

/-- The grid is well within the bound up to which whole numbers are exact. -/
theorem Point.InGrid.fits {k : Point Int} (h : k.InGrid) : k.Fits :=
  ⟨h.1.trans (by decide), h.2.trans (by decide)⟩

/-- The numbers of such points are small, whichever base they are counted from. -/
theorem counts_of_inGrid {pen : Pen} {k : Point Int} (hpen : pen.position.InGrid)
    (hk : k.InGrid) : pen.Counts k.coordinates := by
  unfold Point.InGrid gridBound at hpen hk
  rw [abs_le, abs_le] at hpen hk
  refine Pen.counts_coordinates.mpr fun relative => ?_
  rw [abs_le, abs_le]
  cases relative with
  | false =>
    simp only [Pen.base, Bool.false_eq_true, if_false]
    omega
  | true =>
    simp only [Pen.base, if_true]
    omega

/-- The numbers of a command lie within the bound of the reader, being points of the grid counted
from zero. -/
theorem counts_command {pen : Pen} {t : Segment Int} (hpen : pen.position.InGrid)
    (ht : ∀ k ∈ t.controls, k.InGrid) : pen.Counts t.command.numbers := by
  cases t with
  | line p q =>
    simp only [Segment.controls, List.forall_mem_cons] at ht
    exact counts_of_inGrid hpen ht.2.1
  | quad p c q =>
    simp only [Segment.controls, List.forall_mem_cons] at ht
    exact Pen.counts_append.mpr ⟨counts_of_inGrid hpen ht.2.1, counts_of_inGrid hpen ht.2.2.1⟩
  | cubic p c₁ c₂ q =>
    simp only [Segment.controls, List.forall_mem_cons] at ht
    exact Pen.counts_append.mpr ⟨counts_of_inGrid hpen ht.2.1, Pen.counts_append.mpr
      ⟨counts_of_inGrid hpen ht.2.2.1, counts_of_inGrid hpen ht.2.2.2.1⟩⟩

theorem start_mem_controls (t : Segment Int) : t.start ∈ t.controls := by
  cases t <;> exact List.mem_cons_self

theorem stop_mem_controls (t : Segment Int) : t.stop ∈ t.controls := by
  cases t <;> simp [Segment.controls, Segment.stop]

/-- After the command of a segment the pen stands at the end of the segment, in the part it was
drawing before. -/
theorem after_command (pen : Pen) (t : Segment Int) :
    pen.after t.command = ⟨t.stop, pen.partStart⟩ := by
  cases t <;> rfl

/-- All commands of the writer stay within the bounds of the reader, wherever the pen stands, by
induction on the segments. -/
theorem fits_redraw {ts : List (Segment Int)} (hts : ∀ t ∈ ts, ∀ k ∈ t.controls, k.InGrid)
    {cursor : Option (Point Int)} {pen : Pen} (hpen : pen.position.InGrid) :
    pen.Fits (redraw cursor ts) := by
  induction ts generalizing cursor pen with
  | nil => trivial
  | cons t ts ih =>
    obtain ⟨ht, hts⟩ := List.forall_mem_cons.mp hts
    have htail {pen : Pen} (hpen : pen.position.InGrid) :
        pen.Fits (t.command :: redraw (some t.stop) ts) := by
      refine ⟨counts_command hpen ht, ih hts ?_⟩
      rw [after_command]
      exact ht _ (stop_mem_controls t)
    rw [redraw]
    split
    · exact htail hpen
    · have hstart := ht _ (start_mem_controls t)
      exact ⟨counts_of_inGrid hpen hstart, htail hstart⟩

/-! ## The text of the writer -/

/-- Words with a blank between them, and a gap before the first one. -/
def gapped (gap : List Char) : List String → List Char
  | [] => []
  | w :: ws => gap ++ (w.toList ++ gapped [' '] ws)

/-- Words with a blank between each two are written without a blank at the beginning. -/
theorem toList_intercalate (ws : List String) :
    (String.intercalate " " ws).toList = gapped [] ws := by
  induction ws with
  | nil => rfl
  | cons w ws ih =>
    cases ws with
    | nil => rw [String.intercalate_singleton, gapped, gapped, List.append_nil, List.nil_append]
    | cons w' ws =>
      rw [String.intercalate_cons_cons, String.toList_append, String.toList_append, ih]
      simp only [gapped, List.nil_append, List.append_assoc]
      rfl

section Spelled

variable {p : Point Float32} {k : Point Int} {ks : List Int} {text : List Char}
  {s : Segment Float32} {t : Segment Int}

/-- A point of the grid is written as its two whole numbers with a comma between them. -/
theorem toList_pathText (h : Single.IsWholePoint p k) (hk : k.InGrid) :
    p.pathText.toList = (toString k.x).toList ++ ',' :: (toString k.y).toList := by
  have hbound {n : Int} (hn : |n| ≤ gridBound) : |n * 100| ≤ 2 ^ 24 := by
    unfold gridBound at hn
    rw [abs_le] at hn ⊢
    omega
  have htext : p.pathText = Decimal.coordinateText p.x ++ "," ++ Decimal.coordinateText p.y := rfl
  rw [htext, coordinateText_whole h.1 (hbound hk.1), coordinateText_whole h.2 (hbound hk.2),
    String.toList_append, String.toList_append, List.append_assoc]
  rfl

/-- A point of the grid is spelled as its two coordinates, counted from the origin. -/
theorem spells_point (h : Single.IsWholePoint p k) (hk : k.InGrid)
    (htext : SpellsNumbers false ks text) :
    SpellsNumbers true (k.coordinates ⟨0, 0⟩ ++ ks) (p.pathText.toList ++ text) := by
  simp only [Point.coordinates, sub_zero]
  rw [toList_pathText h hk, List.append_assoc, List.cons_append]
  exact .first (.separated rfl htext)

/-- After a blank the point may follow other numbers. -/
theorem spells_blank_point (h : Single.IsWholePoint p k) (hk : k.InGrid)
    (htext : SpellsNumbers false ks text) :
    SpellsNumbers false (k.coordinates ⟨0, 0⟩ ++ ks) (' ' :: (p.pathText.toList ++ text)) := by
  simp only [Point.coordinates, sub_zero]
  rw [toList_pathText h hk, List.append_assoc, List.cons_append]
  exact .separated rfl (.separated rfl htext)

/-- At the end of a command a point may be written behind a blank. -/
theorem spells_last_point (h : Single.IsWholePoint p k) (hk : k.InGrid) :
    SpellsNumbers false (k.coordinates ⟨0, 0⟩) (' ' :: p.pathText.toList) := by
  have htext := spells_blank_point h hk .nil
  rwa [List.append_nil, List.append_nil] at htext

/-- A command with a single point has this point right behind its letter. -/
theorem spells_only_point (h : Single.IsWholePoint p k) (hk : k.InGrid) :
    SpellsNumbers true (k.coordinates ⟨0, 0⟩) p.pathText.toList := by
  have htext := spells_point h hk .nil
  rwa [List.append_nil, List.append_nil] at htext

/-- A segment is written as the absolute letter of its command, with the coordinates of its points
as the numbers. -/
theorem spells_command (h : IsWholeSegment s t) (ht : ∀ k ∈ t.controls, k.InGrid) :
    ∃ text, s.pathText.toList = t.command.letter false :: text ∧
      SpellsNumbers true (t.command.numbers ⟨0, 0⟩) text := by
  cases h with
  | @line p q k l hp hq =>
    simp only [Segment.controls, List.forall_mem_cons] at ht
    obtain ⟨-, hl, -⟩ := ht
    exact ⟨q.pathText.toList, String.toList_append, spells_only_point hq hl⟩
  | @quad p c q k i l hp hc hq =>
    simp only [Segment.controls, List.forall_mem_cons] at ht
    obtain ⟨-, hi, hl, -⟩ := ht
    refine ⟨c.pathText.toList ++ ' ' :: q.pathText.toList, ?_,
      spells_point hc hi (spells_last_point hq hl)⟩
    simp only [Segment.pathText, String.toList_append, List.append_assoc]
    rfl
  | @cubic p c₁ c₂ q k i j l hp hc₁ hc₂ hq =>
    simp only [Segment.controls, List.forall_mem_cons] at ht
    obtain ⟨-, hi, hj, hl, -⟩ := ht
    refine ⟨c₁.pathText.toList ++ ' ' :: (c₂.pathText.toList ++ ' ' :: q.pathText.toList), ?_,
      spells_point hc₁ hi (spells_blank_point hc₂ hj (spells_last_point hq hl))⟩
    simp only [Segment.pathText, String.toList_append, List.append_assoc]
    rfl

/-- **The writer spells the commands** that draw the segments again. Where a segment begins
elsewhere than the one before it ended, a move stands before its drawing command, which is spelled
in the same way wherever the pen is. -/
theorem spells_pathWords {segments : List (Segment Float32)} {ts : List (Segment Int)}
    (h : List.Forall₂ IsWholeSegment segments ts) (hts : ∀ t ∈ ts, ∀ k ∈ t.controls, k.InGrid)
    {cursor : Option (Point Float32)} {known : Option (Point Int)}
    (hcursor : Option.Rel Single.IsWholePoint cursor known) {gap : List Char} (hgap : IsGap gap)
    (pen : Pen) (last : Option Char) :
    SpellsPath pen last (redraw known ts) (gapped gap (pathWords cursor segments)) := by
  induction h generalizing cursor known gap pen last with
  | nil => exact .done (List.forall_mem_nil _)
  | @cons s t segments ts hst h ih =>
    obtain ⟨ht, hts⟩ := List.forall_mem_cons.mp hts
    have hblank : IsGap [' '] := List.forall_mem_singleton.mpr rfl
    have hstart := ht _ (start_mem_controls t)
    have hdraw {gap : List Char} (hgap : IsGap gap) (pen : Pen) (last : Option Char) :
        SpellsPath pen last (t.command :: redraw (some t.stop) ts)
          (gapped gap (s.pathText :: pathWords (some s.stop) segments)) := by
      obtain ⟨text, hletter, htext⟩ := spells_command hst ht
      rw [gapped, hletter, List.cons_append]
      exact .given false hgap htext (ih hts (.some hst.stop) hblank _ _)
    have hmove : SpellsPath pen last (.move t.start :: t.command :: redraw (some t.stop) ts)
        (gapped gap (("M" ++ s.start.pathText) ::
          s.pathText :: pathWords (some s.stop) segments)) := by
      rw [gapped, String.toList_append]
      exact .given false hgap (spells_only_point hst.start hstart) (hdraw hblank _ _)
    cases hcursor with
    | none => exact hmove
    | @some c k hc =>
      have hmoves := Single.thousandth_lt_distance hc hst.start
      rw [pathWords, redraw]
      by_cases hsame : k = t.start
      · rw [if_pos (congrArg some hsame), if_neg]
        · exact hdraw hgap pen last
        · simpa only [decide_eq_true_iff, hmoves, ne_eq, not_not] using hsame.symm
      · rw [if_neg (mt Option.some.inj hsame), if_pos]
        · exact hmove
        · simpa only [decide_eq_true_iff, hmoves] using Ne.symm hsame

end Spelled

/-! ## Reading what was written -/

/-- Both coordinates are whole numbers within the bound. They are compared as numbers, so a zero may
have either sign. -/
def Point.OnGrid (p : Point Float32) : Prop := ∃ k : Point Int, k.InGrid ∧ p.same k.toSingle = true

/-- The segments are of one kind and agree in all their points. -/
def Segment.same : Segment Float32 → Segment Float32 → Bool
  | .line p q, .line p' q' => p.same p' && q.same q'
  | .quad p c q, .quad p' c' q' => p.same p' && c.same c' && q.same q'
  | .cubic p c₁ c₂ q, .cubic p' c₁' c₂' q' =>
    p.same p' && c₁.same c₁' && c₂.same c₂' && q.same q'
  | _, _ => false

section Read

variable {p : Point Float32} {k : Point Int} {s : Segment Float32} {t : Segment Int}

/-- A point on the grid is one that whole coordinates stand for. -/
theorem exists_isWholePoint (h : p.OnGrid) : ∃ k, Single.IsWholePoint p k ∧ k.InGrid := by
  obtain ⟨k, hk, hsame⟩ := h
  rw [Point.same, Bool.and_eq_true] at hsame
  exact ⟨k, ⟨.of_beq hk.fits.1 hsame.1, .of_beq hk.fits.2 hsame.2⟩, hk⟩

/-- A segment whose points lie on the grid is a whole segment of points of the grid. -/
theorem exists_isWholeSegment (h : ∀ p ∈ s.controls, p.OnGrid) :
    ∃ t, IsWholeSegment s t ∧ ∀ k ∈ t.controls, k.InGrid := by
  cases s with
  | line p q =>
    simp only [Segment.controls, List.forall_mem_cons] at h
    obtain ⟨k, hp, hk⟩ := exists_isWholePoint h.1
    obtain ⟨l, hq, hl⟩ := exists_isWholePoint h.2.1
    exact ⟨.line k l, .line hp hq, List.forall_mem_cons.mpr ⟨hk, List.forall_mem_singleton.mpr hl⟩⟩
  | quad p c q =>
    simp only [Segment.controls, List.forall_mem_cons] at h
    obtain ⟨k, hp, hk⟩ := exists_isWholePoint h.1
    obtain ⟨i, hc, hi⟩ := exists_isWholePoint h.2.1
    obtain ⟨l, hq, hl⟩ := exists_isWholePoint h.2.2.1
    refine ⟨.quad k i l, .quad hp hc hq, ?_⟩
    simp only [Segment.controls, List.forall_mem_cons]
    exact ⟨hk, hi, hl, List.forall_mem_nil _⟩
  | cubic p c₁ c₂ q =>
    simp only [Segment.controls, List.forall_mem_cons] at h
    obtain ⟨k, hp, hk⟩ := exists_isWholePoint h.1
    obtain ⟨i, hc₁, hi⟩ := exists_isWholePoint h.2.1
    obtain ⟨j, hc₂, hj⟩ := exists_isWholePoint h.2.2.1
    obtain ⟨l, hq, hl⟩ := exists_isWholePoint h.2.2.2.1
    refine ⟨.cubic k i j l, .cubic hp hc₁ hc₂ hq, ?_⟩
    simp only [Segment.controls, List.forall_mem_cons]
    exact ⟨hk, hi, hj, hl, List.forall_mem_nil _⟩

/-- Segments whose points lie on the grid are whole segments, one by one. -/
theorem exists_whole_segments {segments : List (Segment Float32)}
    (h : ∀ s ∈ segments, ∀ p ∈ s.controls, p.OnGrid) :
    ∃ ts, List.Forall₂ IsWholeSegment segments ts ∧ ∀ t ∈ ts, ∀ k ∈ t.controls, k.InGrid := by
  induction segments with
  | nil => exact ⟨[], .nil, List.forall_mem_nil _⟩
  | cons s segments ih =>
    obtain ⟨hs, hsegments⟩ := List.forall_mem_cons.mp h
    obtain ⟨t, hst, ht⟩ := exists_isWholeSegment hs
    obtain ⟨ts, hts, hall⟩ := ih hsegments
    exact ⟨t :: ts, .cons hst hts, List.forall_mem_cons.mpr ⟨ht, hall⟩⟩

/-- Whole coordinates that are read as numbers compare equal to the numbers they stand for, even to
a negative zero. -/
theorem same_toSingle (h : Single.IsWholePoint p k) : k.toSingle.same p = true := by
  rw [Point.same, Bool.and_eq_true]
  exact ⟨(Single.isWhole_ofInt h.1.abs_le).beq h.1, (Single.isWhole_ofInt h.2.abs_le).beq h.2⟩

/-- They are these very numbers unless one of them is a negative zero. -/
theorem toSingle_eq (h : Single.IsWholePoint p k) (hzero : p.x ≠ -0.0 ∧ p.y ≠ -0.0) :
    k.toSingle = p :=
  congrArg₂ Point.mk (h.1.eq_ofInt hzero.1).symm (h.2.eq_ofInt hzero.2).symm

/-- A segment that is read from whole coordinates compares equal to the one they stand for. -/
theorem IsWholeSegment.same (h : IsWholeSegment s t) : (t.map Point.toSingle).same s = true := by
  cases h <;> simp only [Segment.map, Segment.same, same_toSingle, *, Bool.and_self]

/-- It is this very segment unless a coordinate is a negative zero. -/
theorem IsWholeSegment.map_eq (h : IsWholeSegment s t)
    (hzero : ∀ p ∈ s.controls, p.x ≠ -0.0 ∧ p.y ≠ -0.0) : t.map Point.toSingle = s := by
  cases h with
  | line hp hq =>
    simp only [Segment.controls, List.forall_mem_cons] at hzero
    simp only [Segment.map, toSingle_eq hp hzero.1, toSingle_eq hq hzero.2.1]
  | quad hp hc hq =>
    simp only [Segment.controls, List.forall_mem_cons] at hzero
    simp only [Segment.map, toSingle_eq hp hzero.1, toSingle_eq hc hzero.2.1,
      toSingle_eq hq hzero.2.2.1]
  | cubic hp hc₁ hc₂ hq =>
    simp only [Segment.controls, List.forall_mem_cons] at hzero
    simp only [Segment.map, toSingle_eq hp hzero.1, toSingle_eq hc₁ hzero.2.1,
      toSingle_eq hc₂ hzero.2.2.1, toSingle_eq hq hzero.2.2.2.1]

/-- Without negative zeros the segments that are read are the ones that were written. -/
theorem map_toSingle {segments : List (Segment Float32)} {ts : List (Segment Int)}
    (h : List.Forall₂ IsWholeSegment segments ts)
    (hzero : ∀ s ∈ segments, ∀ p ∈ s.controls, p.x ≠ -0.0 ∧ p.y ≠ -0.0) :
    ts.map (Segment.map Point.toSingle) = segments := by
  induction h with
  | nil => rfl
  | cons hst h ih =>
    obtain ⟨hs, hsegments⟩ := List.forall_mem_cons.mp hzero
    rw [List.map_cons, hst.map_eq hs, ih hsegments]

end Read

section Grid

variable {k : Point Int}

/-- Points of the grid lie on the grid after they have been turned into numbers. -/
theorem onGrid_toSingle (h : k.InGrid) : k.toSingle.OnGrid :=
  ⟨k, h, same_toSingle (isWholePoint_toSingle h.fits)⟩

/-- No whole number is turned into a negative zero. -/
theorem toSingle_ne_negZero (h : k.InGrid) : k.toSingle.x ≠ -0.0 ∧ k.toSingle.y ≠ -0.0 :=
  ⟨Single.ofInt_ne_negZero h.fits.1, Single.ofInt_ne_negZero h.fits.2⟩

theorem controls_map {α β : Type} (f : Point α → Point β) (s : Segment α) :
    (s.map f).controls = s.controls.map f := by
  cases s <;> rfl

end Grid

/-- **What is written is read again.** Segments with whole coordinates within the bound come back
as they were, connected or not; only a negative zero comes back as a positive one. -/
theorem parsePath_pathText {segments : List (Segment Float32)}
    (h : ∀ s ∈ segments, ∀ p ∈ s.controls, p.OnGrid) :
    ∃ read, parsePath (pathText segments) = .ok read ∧
      List.Forall₂ (fun s s' => Segment.same s s' = true) read segments ∧
      ((∀ s ∈ segments, ∀ p ∈ s.controls, p.x ≠ -0.0 ∧ p.y ≠ -0.0) → read = segments) := by
  obtain ⟨ts, hwhole, hts⟩ := exists_whole_segments h
  have hgap : IsGap [] := nofun
  have htext := spells_pathWords hwhole hts .none hgap Pen.start none
  rw [← toList_intercalate] at htext
  obtain ⟨s, hrun, hdrawn⟩ := run_initial (fits_redraw hts ⟨by decide, by decide⟩) htext
  have hknown : ∀ k ∈ (none : Option (Point Int)), Pen.start.position = k := nofun
  rw [drawing_redraw ts hknown] at hdrawn
  refine ⟨ts.map (Segment.map Point.toSingle), ?_, ?_, fun hzero => ?_⟩
  · rw [parsePath, pathText, hrun]
    exact congrArg Except.ok hdrawn
  · exact List.forall₂_map_left_iff.mpr (hwhole.flip.imp fun _ _ hst => hst.same)
  · exact map_toSingle hwhole hzero

/-- Two segments that touch, and one apart from them. -/
theorem parsePath_pathText_apart :
    parsePath (pathText ([.line ⟨1, 2⟩ ⟨-3, 100000⟩, .quad ⟨-3, 100000⟩ ⟨4, 0⟩ ⟨5, 6⟩,
        .cubic ⟨7, 7⟩ ⟨8, 0⟩ ⟨-9, 0⟩ ⟨5, 6⟩].map (Segment.map Point.toSingle))) =
      .ok ([.line ⟨1, 2⟩ ⟨-3, 100000⟩, .quad ⟨-3, 100000⟩ ⟨4, 0⟩ ⟨5, 6⟩,
        .cubic ⟨7, 7⟩ ⟨8, 0⟩ ⟨-9, 0⟩ ⟨5, 6⟩].map (Segment.map Point.toSingle)) := by
  generalize hts : ([.line ⟨1, 2⟩ ⟨-3, 100000⟩, .quad ⟨-3, 100000⟩ ⟨4, 0⟩ ⟨5, 6⟩,
    .cubic ⟨7, 7⟩ ⟨8, 0⟩ ⟨-9, 0⟩ ⟨5, 6⟩] : List (Segment Int)) = ts
  have hgrid : ∀ t ∈ ts, ∀ k ∈ t.controls, k.InGrid := by
    subst hts
    decide +kernel
  have hpoints {P : Point Float32 → Prop} (hP : ∀ k : Point Int, k.InGrid → P k.toSingle) :
      ∀ s ∈ ts.map (Segment.map Point.toSingle), ∀ p ∈ s.controls, P p := by
    intro s hs p hp
    obtain ⟨t, ht, rfl⟩ := List.mem_map.mp hs
    rw [controls_map] at hp
    obtain ⟨k, hk, rfl⟩ := List.mem_map.mp hp
    exact hP k (hgrid t ht k hk)
  obtain ⟨read, hread, -, heq⟩ := parsePath_pathText (hpoints fun k hk => onGrid_toSingle hk)
  rw [hread, heq (hpoints fun k hk => toSingle_ne_negZero hk)]

end Flowchart
