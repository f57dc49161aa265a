import Flowchart.Proofs.PathText.Numbers
import Flowchart.Proofs.Scalar.Distances

/-!
# Spellings of a path

A list of drawing commands is written in many ways. Each command has an absolute and a relative
letter, a letter may be left out where the reader fills it in, and the gaps between numbers are
commas and blanks in any mix. The reader draws the same segments from all of them, for before every
command it has the pen where the commands so far have left it.
-/

namespace Flowchart

/-! ## Commands -/

/-- A drawing command. All its coordinates are absolute, however it is written. -/
inductive PathCommand where
  /-- lifts the pen and starts a new part -/
  | move (stop : Point Int)
  /-- a straight line -/
  | line (stop : Point Int)
  /-- a horizontal line -/
  | horizontal (x : Int)
  /-- a vertical line -/
  | vertical (y : Int)
  /-- a quadratic curve -/
  | quad (control stop : Point Int)
  /-- a cubic curve -/
  | cubic (control₁ control₂ stop : Point Int)
  /-- a line to where the part started -/
  | close
  deriving Repr, DecidableEq

/-- What is known of the pen before a command. -/
structure Pen where
  /-- where it is -/
  position : Point Int
  /-- where the current part started -/
  partStart : Point Int
  deriving Repr, DecidableEq

namespace Pen

/-- The pen at the origin. -/
def start : Pen := ⟨⟨0, 0⟩, ⟨0, 0⟩⟩

/-- The point that coordinates count from. -/
def base (pen : Pen) (relative : Bool) : Point Int := if relative then pen.position else ⟨0, 0⟩

/-- The pen after a command. -/
def after (pen : Pen) : PathCommand → Pen
  | .move p => ⟨p, p⟩
  | .line p => ⟨p, pen.partStart⟩
  | .horizontal x => ⟨⟨x, pen.position.y⟩, pen.partStart⟩
  | .vertical y => ⟨⟨pen.position.x, y⟩, pen.partStart⟩
  | .quad _ p => ⟨p, pen.partStart⟩
  | .cubic _ _ p => ⟨p, pen.partStart⟩
  | .close => ⟨pen.partStart, pen.partStart⟩

/-- The segments that a command draws; a part that is closed already gets no line. -/
def draws (pen : Pen) : PathCommand → List (Segment Int)
  | .move _ => []
  | .line p => [.line pen.position p]
  | .horizontal x => [.line pen.position ⟨x, pen.position.y⟩]
  | .vertical y => [.line pen.position ⟨pen.position.x, y⟩]
  | .quad q p => [.quad pen.position q p]
  | .cubic q₁ q₂ p => [.cubic pen.position q₁ q₂ p]
  | .close => if pen.position = pen.partStart then [] else [.line pen.position pen.partStart]

/-- The segments that commands draw. -/
def drawing (pen : Pen) : List PathCommand → List (Segment Int)
  | [] => []
  | command :: commands => pen.draws command ++ (pen.after command).drawing commands

end Pen

/-- A point as two numbers, counted from a base. -/
def Point.coordinates (p base : Point Int) : List Int := [p.x - base.x, p.y - base.y]

namespace PathCommand

/-- The absolute letter. -/
def capital : PathCommand → Char
  | move _ => 'M'
  | line _ => 'L'
  | horizontal _ => 'H'
  | vertical _ => 'V'
  | quad _ _ => 'Q'
  | cubic _ _ _ => 'C'
  | close => 'Z'

/-- The relative letter. -/
def small : PathCommand → Char
  | move _ => 'm'
  | line _ => 'l'
  | horizontal _ => 'h'
  | vertical _ => 'v'
  | quad _ _ => 'q'
  | cubic _ _ _ => 'c'
  | close => 'z'

/-- The letter, which tells how the coordinates are meant. -/
def letter : (relative : Bool) → PathCommand → Char
  | false, command => command.capital
  | true, command => command.small

/-- The numbers after the letter, counted from a base. -/
def numbers : PathCommand → (base : Point Int) → List Int
  | move p, base => p.coordinates base
  | line p, base => p.coordinates base
  | horizontal x, base => [x - base.x]
  | vertical y, base => [y - base.y]
  | quad q p, base => q.coordinates base ++ p.coordinates base
  | cubic q₁ q₂ p, base => q₁.coordinates base ++ (q₂.coordinates base ++ p.coordinates base)
  | close, _ => []

variable {command : PathCommand} {relative : Bool}

/-- A letter is a small one exactly for a relative command. -/
theorem letter_isLower : (command.letter relative).isLower = relative := by
  cases relative <;> cases command <;> rfl

/-- Either letter of a command is known by its capital. -/
theorem letter_toUpper : (command.letter relative).toUpper = command.capital := by
  cases relative <;> cases command <;> simp only [letter, capital, small] <;> decide

/-- The letters of commands are the only letters in a text of commands, which is how the reader
finds them. -/
theorem letter_isAlpha : (command.letter relative).isAlpha = true := by
  cases relative <;> cases command <;> rfl

/-- A letter is no separator, so separators are skipped up to it. -/
theorem isSeparator_letter : isSeparator (command.letter relative) = false := by
  cases relative <;> cases command <;> rfl

/-- A number ends before the letter of a command, since that is neither a digit nor a sign of an
exponent. -/
theorem endsNumber_letter {rest : List Char} : EndsNumber (command.letter relative :: rest) := by
  rintro _ ⟨⟩
  cases relative <;> cases command <;> simp only [letter, capital, small] <;> decide

/-- No number starts with the letter of a command, so the reader is not at a number there. -/
theorem not_atNumber_letter {offset : Nat} {rest : List Char} :
    PathCursor.atNumber ⟨offset, command.letter relative :: rest⟩ = false := by
  cases relative <;> cases command <;> rfl

end PathCommand

/-- Sums of these numbers are exact, whichever base they are counted from. -/
def Pen.Counts (pen : Pen) (numbers : Point Int → List Int) : Prop :=
  ∀ relative, ∀ k ∈ numbers (pen.base relative), |k| ≤ 2 ^ 24

instance (pen : Pen) (numbers : Point Int → List Int) : Decidable (pen.Counts numbers) :=
  inferInstanceAs (Decidable (∀ relative, ∀ k ∈ numbers (pen.base relative), |k| ≤ 2 ^ 24))

/-- Sums of the numbers of the commands are exact, in whatever way the commands are written. -/
def Pen.Fits (pen : Pen) : List PathCommand → Prop
  | [] => True
  | command :: commands => pen.Counts command.numbers ∧ (pen.after command).Fits commands

instance Pen.decidableFits : (pen : Pen) → (commands : List PathCommand) →
    Decidable (pen.Fits commands)
  | _, [] => inferInstanceAs (Decidable True)
  | pen, command :: commands =>
    have := Pen.decidableFits (pen.after command) commands
    inferInstanceAs (Decidable (pen.Counts command.numbers ∧ (pen.after command).Fits commands))

/-! ## Texts -/

/-- Numbers with gaps before them. Only the gap before the first one may be empty, and only where
this is told. -/
inductive SpellsNumbers : (free : Bool) → List Int → List Char → Prop where
  /-- no number -/
  | nil {free : Bool} : SpellsNumbers free [] []
  /-- a gap, a number and more numbers -/
  | cons {free : Bool} {gap text : List Char} {k : Int} {ks : List Int} (hgap : IsGap gap)
    (hfree : gap = [] → free = true) (h : SpellsNumbers false ks text) :
    SpellsNumbers free (k :: ks) (gap ++ ((toString k).toList ++ text))

/-- The letter may be left out after this last letter. -/
def MayOmit (last : Option Char) (letter : Char) : Prop :=
  last = some letter ∧ letter ∉ ['M', 'm', 'Z', 'z'] ∨
    last = some 'M' ∧ letter = 'L' ∨ last = some 'm' ∧ letter = 'l'

/-- A text of commands, given where the pen is and which letter came last. -/
inductive SpellsPath : Pen → Option Char → List PathCommand → List Char → Prop where
  /-- no more commands -/
  | done {pen : Pen} {last : Option Char} {gap : List Char} (hgap : IsGap gap) :
    SpellsPath pen last [] gap
  /-- a command with its letter -/
  | given {pen : Pen} {last : Option Char} {command : PathCommand} {commands : List PathCommand}
    {gap text rest : List Char} (relative : Bool) (hgap : IsGap gap)
    (htext : SpellsNumbers true (command.numbers (pen.base relative)) text)
    (h : SpellsPath (pen.after command) (some (command.letter relative)) commands rest) :
    SpellsPath pen last (command :: commands) (gap ++ command.letter relative :: (text ++ rest))
  /-- a command without its letter -/
  | omitted {pen : Pen} {last : Option Char} {command : PathCommand} {commands : List PathCommand}
    {text rest : List Char} (relative : Bool) (hmay : MayOmit last (command.letter relative))
    (htext : SpellsNumbers false (command.numbers (pen.base relative)) text)
    (h : SpellsPath (pen.after command) (some (command.letter relative)) commands rest) :
    SpellsPath pen last (command :: commands) (text ++ rest)

/-! ## Reading numbers -/

namespace SpellsNumbers

variable {free : Bool} {x y k : Int} {ks : List Int} {text rest : List Char}

/-- The first number may follow the letter at once. -/
theorem first (h : SpellsNumbers false ks text) :
    SpellsNumbers true (k :: ks) ((toString k).toList ++ text) :=
  @SpellsNumbers.cons true [] text k ks nofun (fun _ => rfl) h

/-- A single separator before a number is enough, whatever stands in front of it. -/
theorem separated {c : Char} (hc : isSeparator c = true) (h : SpellsNumbers false ks text) :
    SpellsNumbers free (k :: ks) (c :: ((toString k).toList ++ text)) :=
  @SpellsNumbers.cons free [c] text k ks (List.forall_mem_singleton.mpr hc) nofun h

/-- No numbers are spelled by the empty text only. -/
theorem eq_nil (h : SpellsNumbers free [] text) : text = [] := by
  cases h
  rfl

/-- What follows a number is a gap, or comes after all numbers. -/
theorem endsNumber (h : SpellsNumbers false ks text) (hrest : EndsNumber rest) :
    EndsNumber (text ++ rest) := by
  cases h with
  | nil => exact hrest
  | cons hgap hfree h =>
    rw [List.append_assoc]
    exact hgap.endsNumber fun hnil => absurd (hfree hnil) Bool.false_ne_true

/-- The next number is read as a whole, whatever separates it from the letter or from the number
before, and leaves a spelling of those after it. Whole numbers up to the bound are read without
loss. -/
theorem number (h : SpellsNumbers free (k :: ks) text) (hk : |k| ≤ 2 ^ 24)
    (hrest : EndsNumber rest) (offset : Nat) :
    ∃ offset' text', SpellsNumbers false ks text' ∧
      PathCursor.number (α := Float32) ⟨offset, text ++ rest⟩ =
        .ok (Float32.ofInt k, ⟨offset', text' ++ rest⟩) := by
  cases h with
  | @cons _ gap text' _ _ hgap hfree h =>
    obtain ⟨offset', hread⟩ := number_toString hgap (h.endsNumber hrest) hk offset
    refine ⟨offset', text', h, ?_⟩
    rw [List.append_assoc, List.append_assoc]
    exact hread

/-- Two numbers are read as a point in the same way. -/
theorem point (h : SpellsNumbers free (x :: y :: ks) text) (hx : |x| ≤ 2 ^ 24)
    (hy : |y| ≤ 2 ^ 24) (hrest : EndsNumber rest) (offset : Nat) :
    ∃ offset' text', SpellsNumbers false ks text' ∧
      PathCursor.point (α := Float32) ⟨offset, text ++ rest⟩ =
        .ok (⟨Float32.ofInt x, Float32.ofInt y⟩, ⟨offset', text' ++ rest⟩) := by
  obtain ⟨offset₁, text₁, h₁, hread₁⟩ := h.number hx hrest offset
  obtain ⟨offset₂, text₂, h₂, hread₂⟩ := h₁.number hy hrest offset₁
  refine ⟨offset₂, text₂, h₂, ?_⟩
  simp only [PathCursor.point, hread₁, hread₂, bind, Except.bind, pure, Except.pure]

/-- Numbers take some room, if there are any. -/
theorem length_pos (h : SpellsNumbers free ks text) (hks : ks ≠ []) : 0 < text.length := by
  cases h with
  | nil => exact absurd rfl hks
  | @cons _ _ _ k _ hgap hfree h =>
    obtain ⟨c, cs, htext, -⟩ := exists_first k
    rw [htext, List.length_append, List.length_append, List.length_cons]
    omega

/-- After the gap the first number stands at the front. -/
theorem skip (h : SpellsNumbers free ks text) (hks : ks ≠ []) (rest : List Char) (offset : Nat) :
    ∃ offset' c cs, (c.isDigit = true ∨ c = '-') ∧ SpellsNumbers true ks (c :: cs) ∧
      PathCursor.skipSeparators ⟨offset, text ++ rest⟩ = ⟨offset', c :: (cs ++ rest)⟩ := by
  cases h with
  | nil => exact absurd rfl hks
  | @cons _ gap text' k _ hgap hfree h =>
    obtain ⟨c, cs, htext, hc⟩ := exists_first k
    obtain ⟨offset', hskip⟩ := skipSeparators_gap (c :: cs ++ (text' ++ rest)) hgap
      (by
        rintro _ ⟨⟩
        exact isSeparator_first hc) offset
    refine ⟨offset', c, cs ++ text', hc, ?_, ?_⟩
    · have hfirst := h.first (k := k)
      rwa [htext] at hfirst
    · rw [List.append_assoc, List.append_assoc, htext, hskip, List.append_assoc]
      rfl

end SpellsNumbers

/-! ## Carrying out a command -/

/-- A point in single precision. -/
def Point.toSingle (p : Point Int) : Point Float32 := ⟨Float32.ofInt p.x, Float32.ofInt p.y⟩

/-- What was drawn, with the pen where it is. -/
def Pen.state (pen : Pen) (drawn : List (Segment Float32)) (last : Option Char) :
    PathState Float32 :=
  ⟨drawn, pen.position.toSingle, pen.partStart.toSingle, last⟩

/-- Both coordinates are whole numbers up to which sums are exact. -/
def Point.Fits (p : Point Int) : Prop := |p.x| ≤ 2 ^ 24 ∧ |p.y| ≤ 2 ^ 24

/-- The pen has only been at such points. -/
structure Pen.Inside (pen : Pen) : Prop where
  position : pen.position.Fits
  partStart : pen.partStart.Fits

/-- A point of whole numbers up to the bound is exact as a point of numbers in single precision. -/
theorem isWholePoint_toSingle {p : Point Int} (h : p.Fits) : Single.IsWholePoint p.toSingle p :=
  ⟨Single.isWhole_ofInt h.1, Single.isWhole_ofInt h.2⟩

section Commands

variable {pen : Pen} {drawn : List (Segment Float32)} {last : Option Char} {command : PathCommand}
  {relative free : Bool} {text rest : List Char} {p : Point Int} {ks : List Int}

/-- Numbers are small from the point of view of the pen if those of both parts are. -/
theorem Pen.counts_append {f g : Point Int → List Int} :
    pen.Counts (fun base => f base ++ g base) ↔ pen.Counts f ∧ pen.Counts g := by
  simp only [Pen.Counts, List.forall_mem_append, forall_and]

/-- The coordinates of a point are small, whether they are counted from zero or from the pen. -/
theorem Pen.counts_coordinates : pen.Counts p.coordinates ↔ ∀ relative,
    |p.x - (pen.base relative).x| ≤ 2 ^ 24 ∧ |p.y - (pen.base relative).y| ≤ 2 ^ 24 := by
  simp only [Pen.Counts, Point.coordinates, List.mem_cons, List.not_mem_nil, or_false,
    forall_eq_or_imp, forall_eq]

/-- Counted from zero, they are those of the point itself. -/
theorem Pen.Counts.fits (h : pen.Counts p.coordinates) : p.Fits := by
  have habsolute := Pen.counts_coordinates.mp h false
  simp only [Pen.base, Bool.false_eq_true, if_false, sub_zero] at habsolute
  exact habsolute

/-- A number counted from another one is resolved without loss. -/
theorem ofInt_counted {a x : Int} (ha : |a| ≤ 2 ^ 24) (hx : |x| ≤ 2 ^ 24)
    (hcount : |x - a| ≤ 2 ^ 24) : Float32.ofInt (x - a) + Float32.ofInt a = Float32.ofInt x := by
  rw [Single.ofInt_add hcount ha (by rwa [sub_add_cancel]), sub_add_cancel]

/-- Coordinates counted from the pen are resolved without loss. -/
theorem resolve_toSingle (hpen : pen.position.Fits) (hp : pen.Counts p.coordinates) :
    (pen.state drawn last).resolve relative
      ⟨Float32.ofInt (p.x - (pen.base relative).x), Float32.ofInt (p.y - (pen.base relative).y)⟩ =
        p.toSingle := by
  have hrelative := Pen.counts_coordinates.mp hp true
  simp only [Pen.base, if_true] at hrelative
  cases relative with
  | false =>
    simp only [Pen.base, Bool.false_eq_true, if_false, sub_zero]
    rfl
  | true =>
    exact congrArg₂ Point.mk (ofInt_counted hpen.1 hp.fits.1 hrelative.1)
      (ofInt_counted hpen.2 hp.fits.2 hrelative.2)

/-- A single coordinate is resolved in the same way, with the pen as the first summand. -/
theorem resolve_coordinate {a b x : Int} (relative : Bool) (ha : |a| ≤ 2 ^ 24)
    (hb : b = if relative then a else 0) (hx : |x| ≤ 2 ^ 24) (hcount : |x - b| ≤ 2 ^ 24) :
    (if relative then Float32.ofInt a + Float32.ofInt (x - b) else Float32.ofInt (x - b)) =
      Float32.ofInt x := by
  subst hb
  cases relative with
  | false =>
    rw [if_neg Bool.false_ne_true, if_neg Bool.false_ne_true, sub_zero]
  | true =>
    simp only [if_true] at hcount ⊢
    rw [Single.ofInt_add ha hcount (by rwa [add_sub_cancel]), add_sub_cancel]

/-- A point is read from two numbers and resolved: counted from the pen or from the origin, the same
point comes out, without loss. -/
theorem SpellsNumbers.resolved (h : SpellsNumbers free
      ((p.x - (pen.base relative).x) :: (p.y - (pen.base relative).y) :: ks) text)
    (hpen : pen.position.Fits) (hp : pen.Counts p.coordinates) (hrest : EndsNumber rest)
    (offset : Nat) :
    ∃ offset' text' q, SpellsNumbers false ks text' ∧
      PathCursor.point (α := Float32) ⟨offset, text ++ rest⟩ =
        .ok (q, ⟨offset', text' ++ rest⟩) ∧
      ∀ drawn last, (pen.state drawn last).resolve relative q = p.toSingle := by
  obtain ⟨hx, hy⟩ := Pen.counts_coordinates.mp hp relative
  obtain ⟨offset', text', hdone, hread⟩ := h.point hx hy hrest offset
  exact ⟨offset', text', _, hdone, hread, fun _ _ => resolve_toSingle hpen hp⟩

/-- A command is carried out at the front of a text: its letter and the numbers that `text` spells
are read, up to `rest`, and the command draws its segments and moves the pen, whatever was drawn
before. -/
def Pen.CarriesOut (pen : Pen) (command : PathCommand) (relative : Bool)
    (text rest : List Char) : Prop :=
  ∀ drawn last offset, ∃ offset',
    (pen.state drawn last).runCommand (command.letter relative) ⟨offset, text ++ rest⟩ =
      .ok ((pen.after command).state
        (((pen.draws command).map (Segment.map Point.toSingle)).reverse ++ drawn) last,
          ⟨offset', rest⟩)

section CarriesOut

variable (hpen : pen.Inside) (hrest : EndsNumber rest)

section Numbers

include hpen hrest

/-- A command for a point reads the point and moves the pen there. -/
theorem carriesOut_move (h : SpellsNumbers free (p.coordinates (pen.base relative)) text)
    (hp : pen.Counts p.coordinates) : pen.CarriesOut (.move p) relative text rest := by
  intro drawn last offset
  obtain ⟨offset', text', q, hdone, hread, hq⟩ := h.resolved hpen.position hp hrest offset
  obtain rfl := hdone.eq_nil
  refine ⟨offset', ?_⟩
  rw [PathState.runCommand, PathCommand.letter_toUpper, PathCommand.letter_isLower]
  simp only [PathCommand.capital, hread, bind, Except.bind, pure, Except.pure, hq]
  rfl

/-- A line reads its end, draws the run to it from where the pen was, and moves the pen there. -/
theorem carriesOut_line (h : SpellsNumbers free (p.coordinates (pen.base relative)) text)
    (hp : pen.Counts p.coordinates) : pen.CarriesOut (.line p) relative text rest := by
  intro drawn last offset
  obtain ⟨offset', text', q, hdone, hread, hq⟩ := h.resolved hpen.position hp hrest offset
  obtain rfl := hdone.eq_nil
  refine ⟨offset', ?_⟩
  rw [PathState.runCommand, PathCommand.letter_toUpper, PathCommand.letter_isLower]
  simp only [PathCommand.capital, hread, bind, Except.bind, pure, Except.pure, hq]
  rfl

/-- A horizontal line reads one number and keeps the other coordinate of the pen. -/
theorem carriesOut_horizontal {x : Int}
    (h : SpellsNumbers free [x - (pen.base relative).x] text)
    (hx : pen.Counts fun base => [x - base.x]) :
    pen.CarriesOut (.horizontal x) relative text rest := by
  intro drawn last offset
  have hnumber (relative : Bool) := hx relative _ List.mem_cons_self
  obtain ⟨offset', text', hdone, hread⟩ := h.number (hnumber relative) hrest offset
  obtain rfl := hdone.eq_nil
  have hresolve := resolve_coordinate relative hpen.position.1 (by cases relative <;> rfl)
    (sub_zero x ▸ hnumber false) (hnumber relative)
  refine ⟨offset', ?_⟩
  rw [PathState.runCommand, PathCommand.letter_toUpper, PathCommand.letter_isLower]
  simp only [PathCommand.capital, hread, bind, Except.bind, pure, Except.pure, Pen.state,
    Point.toSingle, hresolve]
  rfl

/-- A vertical line reads one number and keeps the other coordinate of the pen. -/
theorem carriesOut_vertical {y : Int}
    (h : SpellsNumbers free [y - (pen.base relative).y] text)
    (hy : pen.Counts fun base => [y - base.y]) :
    pen.CarriesOut (.vertical y) relative text rest := by
  intro drawn last offset
  have hnumber (relative : Bool) := hy relative _ List.mem_cons_self
  obtain ⟨offset', text', hdone, hread⟩ := h.number (hnumber relative) hrest offset
  obtain rfl := hdone.eq_nil
  have hresolve := resolve_coordinate relative hpen.position.2 (by cases relative <;> rfl)
    (sub_zero y ▸ hnumber false) (hnumber relative)
  refine ⟨offset', ?_⟩
  rw [PathState.runCommand, PathCommand.letter_toUpper, PathCommand.letter_isLower]
  simp only [PathCommand.capital, hread, bind, Except.bind, pure, Except.pure, Pen.state,
    Point.toSingle, hresolve]
  rfl

/-- A quadratic curve reads two points, both counted from where the pen is. -/
theorem carriesOut_quad {c : Point Int}
    (h : SpellsNumbers free ((PathCommand.quad c p).numbers (pen.base relative)) text)
    (hfits : pen.Counts (PathCommand.quad c p).numbers) :
    pen.CarriesOut (.quad c p) relative text rest := by
  intro drawn last offset
  obtain ⟨hc, hp⟩ := Pen.counts_append.mp hfits
  obtain ⟨offset₁, text₁, q₁, hdone₁, hread₁, hq₁⟩ := h.resolved hpen.position hc hrest offset
  obtain ⟨offset₂, text₂, q₂, hdone₂, hread₂, hq₂⟩ :=
    hdone₁.resolved hpen.position hp hrest offset₁
  obtain rfl := hdone₂.eq_nil
  refine ⟨offset₂, ?_⟩
  rw [PathState.runCommand, PathCommand.letter_toUpper, PathCommand.letter_isLower]
  simp only [PathCommand.capital, hread₁, hread₂, bind, Except.bind, pure, Except.pure, hq₁, hq₂]
  rfl

/-- A cubic curve reads three points, all counted from where the pen is. -/
theorem carriesOut_cubic {c₁ c₂ : Point Int}
    (h : SpellsNumbers free ((PathCommand.cubic c₁ c₂ p).numbers (pen.base relative)) text)
    (hfits : pen.Counts (PathCommand.cubic c₁ c₂ p).numbers) :
    pen.CarriesOut (.cubic c₁ c₂ p) relative text rest := by
  intro drawn last offset
  obtain ⟨hc₁, hfits⟩ := Pen.counts_append.mp hfits
  obtain ⟨hc₂, hp⟩ := Pen.counts_append.mp hfits
  obtain ⟨offset₁, text₁, q₁, hdone₁, hread₁, hq₁⟩ := h.resolved hpen.position hc₁ hrest offset
  obtain ⟨offset₂, text₂, q₂, hdone₂, hread₂, hq₂⟩ :=
    hdone₁.resolved hpen.position hc₂ hrest offset₁
  obtain ⟨offset₃, text₃, q₃, hdone₃, hread₃, hq₃⟩ :=
    hdone₂.resolved hpen.position hp hrest offset₂
  obtain rfl := hdone₃.eq_nil
  refine ⟨offset₃, ?_⟩
  rw [PathState.runCommand, PathCommand.letter_toUpper, PathCommand.letter_isLower]
  simp only [PathCommand.capital, hread₁, hread₂, hread₃, bind, Except.bind, pure, Except.pure,
    hq₁, hq₂, hq₃]
  rfl

end Numbers

include hpen

/-- Closing a part reads nothing, and draws a line unless the pen is where the part started: on
whole points the distance that decides this is zero or at least one. -/
theorem carriesOut_close : pen.CarriesOut .close relative [] rest := by
  intro drawn last offset
  have hclose := Single.millionth_lt_distance (isWholePoint_toSingle hpen.position)
    (isWholePoint_toSingle hpen.partStart)
  refine ⟨offset, ?_⟩
  rw [PathState.runCommand, PathCommand.letter_toUpper, PathCommand.letter_isLower]
  simp only [PathCommand.capital, pure, Except.pure, Pen.state, hclose, Pen.draws]
  by_cases hclosed : pen.position = pen.partStart
  · rw [if_neg (not_not_intro hclosed.symm), if_pos hclosed]
    rfl
  · rw [if_pos (Ne.symm hclosed), if_neg hclosed]
    rfl

include hrest

/-- **A command is carried out** as its letter and its numbers tell, and moves the pen. -/
theorem carriesOut (h : SpellsNumbers free (command.numbers (pen.base relative)) text)
    (hfits : pen.Counts command.numbers) : pen.CarriesOut command relative text rest := by
  cases command with
  | move p => exact carriesOut_move hpen hrest h hfits
  | line p => exact carriesOut_line hpen hrest h hfits
  | horizontal x => exact carriesOut_horizontal hpen hrest h hfits
  | vertical y => exact carriesOut_vertical hpen hrest h hfits
  | quad c p => exact carriesOut_quad hpen hrest h hfits
  | cubic c₁ c₂ p => exact carriesOut_cubic hpen hrest h hfits
  | close =>
    obtain rfl := h.eq_nil
    exact carriesOut_close hpen

end CarriesOut

/-- A command that fits leaves the pen inside. -/
theorem Pen.Inside.after (hpen : pen.Inside) (hfits : pen.Counts command.numbers) :
    (pen.after command).Inside := by
  cases command with
  | move p => exact ⟨Pen.Counts.fits hfits, Pen.Counts.fits hfits⟩
  | line p => exact ⟨Pen.Counts.fits hfits, hpen.partStart⟩
  | horizontal x =>
    have hx := hfits false _ List.mem_cons_self
    exact ⟨⟨sub_zero x ▸ hx, hpen.position.2⟩, hpen.partStart⟩
  | vertical y =>
    have hy := hfits false _ List.mem_cons_self
    exact ⟨⟨hpen.position.1, sub_zero y ▸ hy⟩, hpen.partStart⟩
  | quad q p => exact ⟨(Pen.counts_append.mp hfits).2.fits, hpen.partStart⟩
  | cubic q₁ q₂ p =>
    have hcontrols := (Pen.counts_append.mp hfits).2
    exact ⟨(Pen.counts_append.mp hcontrols).2.fits, hpen.partStart⟩
  | close => exact ⟨hpen.partStart, hpen.partStart⟩

end Commands

/-! ## Running -/

section Running

variable {pen : Pen} {drawn : List (Segment Float32)} {last : Option Char} {command : PathCommand}
  {commands : List PathCommand} {relative : Bool} {text : List Char} {letter next : Char}
  {s s' : PathState Float32} {c c' : PathCursor}

/-- The reader fills in the letters that may be left out. -/
theorem implied?_of_mayOmit (h : MayOmit last letter) :
    (pen.state drawn last).implied? = some letter := by
  rcases h with ⟨rfl, hletter⟩ | ⟨rfl, rfl⟩ | ⟨rfl, rfl⟩
  · simp only [List.mem_cons, List.not_mem_nil, or_false, not_or] at hletter
    simp only [PathState.implied?, Pen.state]
    split <;> simp_all
  · rfl
  · rfl

/-- After a command that closes a part the letter cannot be left out. -/
theorem not_mayOmit_close : ¬ MayOmit (some (PathCommand.close.letter relative)) letter := by
  rintro (⟨hletter, hnot⟩ | ⟨hletter, -⟩ | ⟨hletter, -⟩)
  · obtain rfl := Option.some.inj hletter
    cases relative <;> exact hnot (by decide)
  · cases relative <;> exact absurd hletter (by decide)
  · cases relative <;> exact absurd hletter (by decide)

/-- A command may leave out its letter only if it has numbers, for otherwise nothing would tell that
it is there. -/
theorem numbers_ne_nil (h : MayOmit last (command.letter relative)) (base : Point Int) :
    command.numbers base ≠ [] := by
  cases command with
  | close =>
    rcases h with ⟨-, hnot⟩ | ⟨-, hletter⟩ | ⟨-, hletter⟩
    · cases relative <;> exact absurd (by decide) hnot
    · cases relative <;> exact absurd hletter (by decide)
    · cases relative <;> exact absurd hletter (by decide)
  | _ => exact List.cons_ne_nil _ _

/-- What spells commands ends a number before it: it is empty, or begins with a letter, a separator
or a sign. -/
theorem SpellsPath.endsNumber (h : SpellsPath pen last commands text) : EndsNumber text := by
  induction h with
  | @done _ _ gap hgap =>
    have hend : EndsNumber (gap ++ []) := hgap.endsNumber fun _ => nofun
    rwa [List.append_nil] at hend
  | given relative hgap htext h ih => exact hgap.endsNumber fun _ => PathCommand.endsNumber_letter
  | omitted relative hmay htext h ih => exact htext.endsNumber ih

/-- A gap before a letter is skipped, and the letter then stands at the front. -/
theorem skipSeparators_letter {gap : List Char} (text : List Char) (hgap : IsGap gap)
    (offset : Nat) :
    ∃ offset', PathCursor.skipSeparators ⟨offset, gap ++ command.letter relative :: text⟩ =
      ⟨offset', command.letter relative :: text⟩ :=
  skipSeparators_gap _ hgap
    (by
      rintro _ ⟨⟩
      exact PathCommand.isSeparator_letter) offset

/-- Where no letter may be left out the text does not go on with a number. -/
theorem SpellsPath.not_atNumber (h : SpellsPath pen last commands text)
    (hlast : ∀ letter, ¬ MayOmit last letter) (offset : Nat) :
    (PathCursor.skipSeparators ⟨offset, text⟩).atNumber = false := by
  cases h with
  | @done _ _ gap hgap =>
    obtain ⟨offset', hskip⟩ := skipSeparators_gap [] hgap nofun offset
    rw [List.append_nil] at hskip
    rw [hskip]
    rfl
  | given relative hgap htext h =>
    obtain ⟨offset', hskip⟩ := skipSeparators_letter _ hgap offset
    rw [hskip]
    exact PathCommand.not_atNumber_letter
  | omitted relative hmay htext h => exact absurd hmay (hlast _)

/-- No number follows a command that closes a part. -/
theorem SpellsPath.closes (h : SpellsPath pen (some (command.letter relative)) commands text)
    (offset : Nat) : ((command.letter relative).toUpper == 'Z' &&
      (PathCursor.skipSeparators ⟨offset, text⟩).atNumber) = false := by
  rw [PathCommand.letter_toUpper]
  cases command with
  | close => exact h.not_atNumber (fun _ => not_mayOmit_close) offset
  | _ => rfl

/-- One step of the reader where a letter is given. -/
theorem step_given (hnext : next.isAlpha = true)
    (hrun : s.runCommand next (c.advance 1) = .ok (s', c'))
    (hclose : (next.toUpper == 'Z' && c'.skipSeparators.atNumber) = false) :
    s.step c next = .ok ({ s' with command := some next }, c'.skipSeparators) := by
  simp only [PathState.step, hnext, if_true, pure, Except.pure, bind, Except.bind, hrun, hclose]
  rfl

/-- One step of the reader where it fills the letter in. -/
theorem step_omitted (hnext : next.isAlpha = false) (himplied : s.implied? = some letter)
    (hrun : s.runCommand letter c = .ok (s', c'))
    (hclose : (letter.toUpper == 'Z' && c'.skipSeparators.atNumber) = false) :
    s.step c next = .ok ({ s' with command := some letter }, c'.skipSeparators) := by
  simp only [PathState.step, hnext, himplied, Bool.false_eq_true, if_false, pure, Except.pure, bind,
    Except.bind, hrun, hclose]

/-- One round of the reader; what is skipped after it would be skipped before the next one. -/
theorem run_step {fuel offset : Nat} {rest : List Char}
    (hskip : c.skipSeparators = ⟨offset, next :: rest⟩)
    (hstep : s.step ⟨offset, next :: rest⟩ next = .ok (s', c'.skipSeparators)) :
    s.run (fuel + 1) c = s'.run fuel c' := by
  have hidem : s'.run fuel c'.skipSeparators = s'.run fuel c' := by
    cases fuel with
    | zero => rfl
    | succ fuel => rw [PathState.run, PathState.run, skipSeparators_idem]
  rw [PathState.run, hskip]
  dsimp only
  rw [hstep]
  exact hidem

/-- Segments that are kept in reverse, with those of one more command. -/
theorem drawing_cons : (((pen.draws command).map (Segment.map Point.toSingle)).reverse ++
      drawn).reverse ++ ((pen.after command).drawing commands).map (Segment.map Point.toSingle) =
    drawn.reverse ++ (pen.drawing (command :: commands)).map (Segment.map Point.toSingle) := by
  rw [Pen.drawing, List.map_append, List.reverse_append, List.reverse_reverse, List.append_assoc]

/-- **A text of commands is read as what the commands draw.** -/
theorem run_spelled (drawn : List (Segment Float32)) (h : SpellsPath pen last commands text)
    (hpen : pen.Inside) (hfits : pen.Fits commands) {fuel : Nat} (hfuel : text.length < fuel)
    (offset : Nat) :
    ∃ s, (pen.state drawn last).run fuel ⟨offset, text⟩ = .ok s ∧ s.drawn.reverse =
      drawn.reverse ++ (pen.drawing commands).map (Segment.map Point.toSingle) := by
  induction h generalizing fuel offset drawn with
  | @done pen last gap hgap =>
    obtain ⟨fuel, rfl⟩ := Nat.exists_eq_add_of_lt hfuel
    obtain ⟨offset', hskip⟩ := skipSeparators_gap [] hgap nofun offset
    rw [List.append_nil] at hskip
    refine ⟨_, by rw [PathState.run, hskip], ?_⟩
    exact (List.append_nil _).symm
  | @given pen last command commands gap text rest relative hgap htext h ih =>
    obtain ⟨fuel, rfl⟩ : ∃ n, fuel = n + 1 := ⟨fuel - 1, by omega⟩
    obtain ⟨offset₁, hskip⟩ := skipSeparators_letter (text ++ rest) hgap offset
    obtain ⟨offset₂, hrun⟩ := carriesOut hpen h.endsNumber htext hfits.1 drawn last
      (offset₁ + (command.letter relative).utf8Size)
    have hstep := step_given (c := ⟨offset₁, command.letter relative :: (text ++ rest)⟩)
      PathCommand.letter_isAlpha hrun (h.closes offset₂)
    have hshort : rest.length < fuel := by
      simp only [List.length_append, List.length_cons] at hfuel
      omega
    obtain ⟨s, hread, hdrawn⟩ := ih _ (hpen.after hfits.1) hfits.2 hshort offset₂
    refine ⟨s, (run_step hskip hstep).trans hread, hdrawn.trans ?_⟩
    exact drawing_cons
  | @omitted pen last command commands text rest relative hmay htext h ih =>
    obtain ⟨fuel, rfl⟩ : ∃ n, fuel = n + 1 := ⟨fuel - 1, by omega⟩
    have hne := numbers_ne_nil hmay (pen.base relative)
    obtain ⟨offset₁, first, cs, hfirst, hfree, hskip⟩ := htext.skip hne rest offset
    obtain ⟨offset₂, hrun⟩ := carriesOut hpen h.endsNumber hfree hfits.1 drawn last offset₁
    have hstep := step_omitted (isAlpha_first hfirst) (implied?_of_mayOmit hmay) hrun
      (h.closes offset₂)
    have hshort : rest.length < fuel := by
      have hlength := htext.length_pos hne
      rw [List.length_append] at hfuel
      omega
    obtain ⟨s, hread, hdrawn⟩ := ih _ (hpen.after hfits.1) hfits.2 hshort offset₂
    refine ⟨s, (run_step hskip hstep).trans hread, hdrawn.trans ?_⟩
    exact drawing_cons

end Running

/-- The pen starts at zero, which is well inside the bounds. -/
theorem inside_start : Pen.start.Inside := by
  refine ⟨⟨?_, ?_⟩, ⟨?_, ?_⟩⟩ <;> decide

/-- The run of the reader on a whole text. -/
theorem run_initial {commands : List PathCommand} {text : List Char}
    (hfits : Pen.start.Fits commands) (h : SpellsPath Pen.start none commands text) :
    ∃ s : PathState Float32, PathState.initial.run (text.length + 1) ⟨0, text⟩ = .ok s ∧
      s.drawn.reverse = (Pen.start.drawing commands).map (Segment.map Point.toSingle) := by
  have hzero : (0.0 : Float32) = Float32.ofInt 0 := by decide +kernel
  have hstart : (PathState.initial : PathState Float32) = Pen.start.state [] none := by
    rw [PathState.initial, Point.origin, hzero]
    rfl
  rw [hstart]
  exact run_spelled [] h inside_start hfits (Nat.lt_succ_self _) 0

/-- **All spellings of a path are read alike.** However commands are written, the reader succeeds
and gives the segments that they draw. -/
theorem parsePath_spelled {commands : List PathCommand} {text : String}
    (hfits : Pen.start.Fits commands) (h : SpellsPath Pen.start none commands text.toList) :
    parsePath text = .ok ((Pen.start.drawing commands).map (Segment.map Point.toSingle)) := by
  obtain ⟨s, hrun, hdrawn⟩ := run_initial hfits h
  rw [parsePath, hrun]
  exact congrArg Except.ok hdrawn

/-- Relative letters after a close, letters left out, and gaps of several kinds. -/
theorem parsePath_spelled_closed :
    parsePath "M10,20 30\t5l-29 -3zm1 1,2 -2" = .ok ([
      .line ⟨10, 20⟩ ⟨30, 5⟩, .line ⟨30, 5⟩ ⟨1, 2⟩, .line ⟨1, 2⟩ ⟨10, 20⟩,
      .line ⟨11, 21⟩ ⟨13, 19⟩].map (Segment.map Point.toSingle)) := by
  have hgap : IsGap [] := nofun
  have hspells : SpellsPath Pen.start none [.move ⟨10, 20⟩, .line ⟨30, 5⟩, .line ⟨1, 2⟩, .close,
      .move ⟨11, 21⟩, .line ⟨13, 19⟩] _ :=
    .given false hgap (.first (.separated (c := ',') rfl .nil)) <|
    .omitted false (.inr (.inl ⟨rfl, rfl⟩)) (.separated (c := ' ') rfl
      (.separated (c := '\t') rfl .nil)) <|
    .given true hgap (.first (.separated (c := ' ') rfl .nil)) <|
    .given true hgap .nil <|
    .given true hgap (.first (.separated (c := ' ') rfl .nil)) <|
    .omitted true (.inr (.inr ⟨rfl, rfl⟩)) (.separated (c := ',') rfl
      (.separated (c := ' ') rfl .nil)) <|
    .done hgap
  have hfits : Pen.start.Fits [.move ⟨10, 20⟩, .line ⟨30, 5⟩, .line ⟨1, 2⟩, .close,
      .move ⟨11, 21⟩, .line ⟨13, 19⟩] := by decide +kernel
  refine parsePath_spelled hfits ?_
  convert hspells using 1
  decide +kernel

end Flowchart
