import Mathlib.Data.List.Infix
import Mathlib.Data.List.TakeWhile
import Flowchart.Command.Fences
import Flowchart.Proofs.Printing.Words

/-!
# Fenced blocks

A fence may have any length from three on, but of the fence that opened a block only the marker is
kept, and the block ends at a line of exactly three. So the diagrams of a text are the bodies of its
blocks exactly if all fences have the length three and no body holds such a line,
`fencedDiagrams_eq_iff`. A longer fence does not end its own block: the block goes on to the next
line of three markers, and if there is none, it is lost.
-/

namespace Flowchart.Command

open Text

/-! ## Documents -/

/-- Without the blanks around it, the line is a fence of some length with `mermaid` behind it. -/
def Opens (line : String) (marker : Char) : Prop :=
  ∃ size ≥ 3, ∃ rest, trimChars line.toList = List.replicate size marker ++ rest ∧
    rest.head? ≠ some marker ∧ "mermaid".toList <+: trimChars rest

/-- A block with a diagram. -/
structure FencedBlock where
  /-- what its fences are made of -/
  marker : Char
  /-- length of both fences -/
  size : Nat
  /-- how many spaces stand before the word `mermaid` -/
  spaces : Nat
  /-- the lines between the fences -/
  body : List String
  marker_mem : marker ∈ fenceMarkers
  three_le : 3 ≤ size

namespace FencedBlock

/-- The fence that the block ends with. -/
def fence (b : FencedBlock) : String := String.ofList (List.replicate b.size b.marker)

/-- The line that the block begins with. -/
def opening (b : FencedBlock) : String :=
  String.ofList (List.replicate b.size b.marker ++
    (List.replicate b.spaces ' ' ++ "mermaid".toList))

/-- No line of the body could be taken for the closing fence: none consists of as many markers or
more. -/
def Enclosed (b : FencedBlock) : Prop :=
  ∀ l ∈ b.body, ∀ n ≥ b.size, l.toList ≠ List.replicate n b.marker

/-- The block ends where its reader takes it to end: its fences have the length three, and no line
of the body is three markers between blanks. -/
def Readable (b : FencedBlock) : Prop :=
  b.size = 3 ∧ ∀ l ∈ b.body, trimChars l.toList ≠ List.replicate 3 b.marker

end FencedBlock

/-- A part of a text with fenced blocks. -/
inductive Part where
  /-- a line that opens no block with a diagram -/
  | prose (line : String) (h : ∀ marker ∈ fenceMarkers, ¬ Opens line marker)
  /-- a block with a diagram -/
  | block (b : FencedBlock)

/-- The lines of a part. -/
def Part.lines : Part → List String
  | prose line _ => [line]
  | block b => b.opening :: (b.body ++ [b.fence])

/-- The diagram in a part. -/
def Part.diagram? : Part → Option String
  | prose .. => none
  | block b => some ("\n".intercalate b.body)

/-! ## Fences -/

section Fences

variable {line : String} {marker : Char} {body rest : List String}

/-- A line opens a block if, without the blanks around it, it begins with three markers and the rest
begins with the word after blanks. -/
theorem opensWith_iff : opensWith (trimChars line.toList) marker = true ↔ Opens line marker := by
  rw [opensWith, Bool.and_eq_true, List.isPrefixOf_iff_prefix, List.isPrefixOf_iff_prefix, fenceOf]
  generalize hcs : trimChars line.toList = cs
  constructor
  · rintro ⟨⟨rest, hfence⟩, hword⟩
    have hrun : cs.takeWhile (· == marker) =
        List.replicate (cs.takeWhile (· == marker)).length marker :=
      List.eq_replicate_of_mem fun c hc => by simpa using List.mem_takeWhile_imp hc
    refine ⟨(cs.takeWhile (· == marker)).length, ?_, cs.dropWhile (· == marker), ?_, ?_, hword⟩
    · rw [← hfence, List.takeWhile_append_of_pos (by simp)]
      simp
    · rw [hcs, ← hrun, List.takeWhile_append_dropWhile]
    · intro hhead
      have hnot := List.head?_dropWhile_not (· == marker) cs
      rw [hhead] at hnot
      simp at hnot
  · rintro ⟨size, hsize, rest, heq, hhead, hword⟩
    obtain rfl : cs = List.replicate size marker ++ rest := hcs.symm.trans heq
    constructor
    · obtain ⟨more, rfl⟩ := Nat.exists_eq_add_of_le hsize
      rw [List.replicate_add, List.append_assoc]
      exact List.prefix_append _ _
    · have hdrop : (List.replicate size marker ++ rest).dropWhile (· == marker) = rest :=
        dropFront_pad (by simp) fun c hc => by
          rw [beq_eq_false_iff_ne]
          rintro rfl
          exact hhead hc
      rwa [hdrop]

/-- A run of markers that is not empty begins with the marker. -/
theorem head?_run {n : Nat} (hn : 3 ≤ n) (c : Char) (cs : List Char) :
    (List.replicate n c ++ cs).head? = some c := by
  rw [List.head?_append, List.head?_replicate, if_neg (by omega)]
  rfl

/-- A line opens a block with one marker only, for the two markers differ in their first
character. -/
theorem Opens.unique {marker' : Char} (h : Opens line marker) (h' : Opens line marker') :
    marker = marker' := by
  obtain ⟨size, hsize, rest, heq, -⟩ := h
  obtain ⟨size', hsize', rest', heq', -⟩ := h'
  have hhead := congrArg List.head? (heq.symm.trans heq')
  rw [head?_run hsize, head?_run hsize'] at hhead
  exact Option.some.inj hhead

/-- The marker that is found is the one that the line begins with. -/
theorem openingMarker?_eq_some (hmarker : marker ∈ fenceMarkers) (h : Opens line marker) :
    openingMarker? line = some marker := by
  have hfound : (openingMarker? line).isSome := by
    rw [openingMarker?, List.find?_isSome]
    exact ⟨marker, hmarker, opensWith_iff.mpr h⟩
  obtain ⟨marker', heq⟩ := Option.isSome_iff_exists.mp hfound
  rw [heq, opensWith_iff.mp (List.find?_some heq) |>.unique h]

/-- None is found if the line begins with none of them. -/
theorem openingMarker?_eq_none_iff :
    openingMarker? line = none ↔ ∀ marker ∈ fenceMarkers, ¬ Opens line marker := by
  rw [openingMarker?, List.find?_eq_none]
  simp only [opensWith_iff]

theorem not_isBlank_of_marker (h : marker ∈ fenceMarkers) : isBlank marker = false := by
  have hall : fenceMarkers.all fun c => !isBlank c := by decide
  simpa using List.all_eq_true.mp hall marker h

/-- A block is closed by exactly three markers between blanks. -/
theorem closes_iff :
    closes marker line = true ↔ trimChars line.toList = List.replicate 3 marker := by
  rw [closes, Bool.and_eq_true, List.isPrefixOf_iff_prefix, fenceOf]
  obtain ⟨-, -, -, -, -, -, hlast⟩ := exists_pad line.toList
  generalize trimChars line.toList = cs at *
  constructor
  · rintro ⟨⟨rest, rfl⟩, hblank⟩
    have hdrop : (List.replicate 3 marker ++ rest).drop 3 = rest := rfl
    rw [hdrop, List.all_eq_true] at hblank
    cases hend : rest.getLast? with
    | none => rw [List.getLast?_eq_none_iff.mp hend, List.append_nil]
    | some c =>
      have hc := hlast c (by rw [List.getLast?_append, hend]; rfl)
      rw [hblank c (List.mem_of_getLast? hend)] at hc
      cases hc
  · rintro rfl
    exact ⟨List.prefix_rfl, rfl⟩

/-- A line that closes a block is not empty. -/
theorem ne_empty_of_closes (h : closes marker line = true) : line ≠ "" := by
  rintro rfl
  rw [closes, Bool.and_eq_true] at h
  cases h.1

namespace FencedBlock

variable (b : FencedBlock)

/-- The first line of a block opens it, whatever the length of its fence and the blanks before the
word are. -/
theorem opens_opening : Opens b.opening b.marker := by
  have hmarker := not_isBlank_of_marker b.marker_mem
  have hspaces : ∀ c ∈ List.replicate b.spaces ' ', isBlank c = true := by
    intro c hc
    rw [List.eq_of_mem_replicate hc]
    rfl
  have hword : trimChars (List.replicate b.spaces ' ' ++ ("mermaid".toList ++ [])) =
      "mermaid".toList :=
    trimChars_pad hspaces (by simp) (by simp) (by simp [isBlank]) (by simp [isBlank])
  rw [List.append_nil] at hword
  refine ⟨b.size, b.three_le, List.replicate b.spaces ' ' ++ "mermaid".toList, ?_, ?_,
    by rw [hword]⟩
  · rw [opening, String.toList_ofList]
    exact trimChars_eq_self (by simp) (by simp [head?_run b.three_le, hmarker]) (by simp [isBlank])
  · have hne : b.marker ≠ ' ' ∧ b.marker ≠ 'm' := by
      have hall : ∀ c ∈ fenceMarkers, c ≠ ' ' ∧ c ≠ 'm' := by simp [fenceMarkers]
      exact hall _ b.marker_mem
    cases b.spaces with
    | zero => simpa using hne.2.symm
    | succ n => simpa [List.replicate_succ] using hne.1.symm

theorem fence_ne_empty : b.fence ≠ "" := by
  intro h
  have hlong := b.three_le
  have hlength : b.size = 0 := by simpa [fence] using congrArg String.length h
  omega

/-- The fence that ends a block closes it if it has the length three. -/
theorem closes_fence : closes b.marker b.fence = true ↔ b.size = 3 := by
  have hmarker := not_isBlank_of_marker b.marker_mem
  have hlong := b.three_le
  have hself : trimChars (List.replicate b.size b.marker) = List.replicate b.size b.marker :=
    trimChars_eq_self (List.ne_nil_of_length_pos (by rw [List.length_replicate]; omega))
      (by simp [List.head?_replicate, hmarker]) (by simp [List.getLast?_replicate, hmarker])
  rw [closes_iff, fence, String.toList_ofList, hself, List.replicate_inj]
  simp

end FencedBlock

end Fences

/-! ## Reading -/

section Reading

variable {line : String} {marker : Char} {before body first rest : List String}
  {more : List (List String)}

/-- Outside of blocks, lines that open none are passed over. -/
theorem blocksOutside_prose (h : openingMarker? line = none) :
    blocksOutside (line :: rest) = blocksOutside rest := by
  simp only [blocksOutside, h]

/-- A line that opens a block begins a body, of which the marker is all that is kept in mind. -/
theorem blocksOutside_opening (h : openingMarker? line = some marker) :
    blocksOutside (line :: rest) = blocksInside marker [] rest := by
  simp only [blocksOutside, h]

/-- The body of a block reaches up to the first line that closes it. -/
theorem blocksInside_closed (hbody : ∀ l ∈ body, closes marker l = false)
    (hline : closes marker line = true) :
    blocksInside marker before (body ++ line :: rest) =
      (before.reverse ++ body) :: blocksOutside rest := by
  induction body generalizing before with
  | nil => simp [blocksInside, hline]
  | cons l body ih =>
    obtain ⟨hl, hbody⟩ := List.forall_mem_cons.mp hbody
    simp [blocksInside, hl, ih hbody]

/-- A block that is found was closed by a line, and its body is all before the first such line. -/
theorem exists_of_blocksInside {lines : List String}
    (h : blocksInside marker before lines = first :: more) : ∃ body line rest,
      first = before.reverse ++ body ∧ lines = body ++ line :: rest ∧ more = blocksOutside rest ∧
        (∀ l ∈ body, closes marker l = false) ∧ closes marker line = true := by
  induction lines generalizing before with
  | nil => simp [blocksInside] at h
  | cons l lines ih =>
    rw [blocksInside] at h
    split at h
    next hl =>
      obtain ⟨rfl, rfl⟩ := List.cons.inj h
      exact ⟨[], l, lines, by simp, rfl, rfl, by simp, hl⟩
    next hl =>
      obtain ⟨body, line, rest, rfl, rfl, hmore, hbody, hline⟩ := ih h
      exact ⟨l :: body, line, rest, by simp, rfl, hmore,
        List.forall_mem_cons.mpr ⟨by simpa using hl, hbody⟩, hline⟩

/-- Lines with one more line that is not empty behind them make a longer text. -/
theorem length_intercalate_lt (lines more : List String) (hline : line ≠ "") :
    ("\n".intercalate lines).length < ("\n".intercalate (lines ++ line :: more)).length := by
  have hpos : 0 < line.length := by
    rw [Nat.pos_iff_ne_zero, Ne, String.length_eq_zero_iff]
    exact hline
  induction lines with
  | nil =>
    cases more with
    | nil => simpa using hpos
    | cons l more => simp [String.intercalate_cons_cons]; omega
  | cons l lines ih =>
    cases lines with
    | nil =>
      have hbreak : "\n".length = 1 := rfl
      simp only [List.singleton_append, String.intercalate_singleton, String.intercalate_cons_cons,
        String.length_append]
      omega
    | cons l' lines => simpa [String.intercalate_cons_cons] using ih

/-- Lines that begin with one that is not empty make a text longer, unless there are none. -/
theorem eq_nil_of_intercalate_eq {lines between before after : List String} (hline : line ≠ "")
    (hcut : line :: before = between ++ after)
    (hsame : "\n".intercalate (lines ++ between) = "\n".intercalate lines) : between = [] := by
  cases between with
  | nil => rfl
  | cons l between =>
    obtain rfl := (List.cons.inj hcut).1
    have hlt := length_intercalate_lt lines between hline
    rw [hsame] at hlt
    exact absurd hlt (lt_irrefl _)

end Reading

/-! ## Whole texts -/

variable {b : FencedBlock} {rest first : List String} {more : List (List String)}

/-- No line of a body closes its block if none of them is three markers between blanks. -/
theorem closes_body_iff : (∀ l ∈ b.body, closes b.marker l = false) ↔
    ∀ l ∈ b.body, trimChars l.toList ≠ List.replicate 3 b.marker := by
  simp only [← Bool.not_eq_true, closes_iff, ne_eq]

/-- The lines of a block are its opening, its body and the fence that is meant to close it. -/
theorem blocksOutside_block (b : FencedBlock) (rest : List String) :
    blocksOutside ((Part.block b).lines ++ rest) =
      blocksInside b.marker [] (b.body ++ b.fence :: rest) := by
  rw [Part.lines, List.cons_append, List.append_assoc,
    blocksOutside_opening (openingMarker?_eq_some b.marker_mem b.opens_opening)]
  rfl

/-- A block with fences of three, no line of which closes it too early, is found as it is, and the
search goes on behind it. -/
theorem FencedBlock.Readable.blocksOutside_eq (h : b.Readable) (rest : List String) :
    blocksOutside ((Part.block b).lines ++ rest) = b.body :: blocksOutside rest := by
  rw [blocksOutside_block,
    blocksInside_closed (closes_body_iff.mpr h.2) (b.closes_fence.mpr h.1)]
  rfl

/-- If the first diagram found is the body of the block, then the block was read as it is: what is
read too little or too much is a line with a marker, so the text would be shorter or longer. -/
theorem readable_of_blocksOutside (h : blocksOutside ((Part.block b).lines ++ rest) = first :: more)
    (hfirst : "\n".intercalate first = "\n".intercalate b.body) : b.Readable := by
  rw [blocksOutside_block] at h
  obtain ⟨body, line, rest', hbefore, hlines, -, hbody, hline⟩ := exists_of_blocksInside h
  obtain rfl : first = body := hbefore
  have hsame : first = b.body ∧ line = b.fence := by
    rcases List.append_eq_append_iff.mp hlines with ⟨between, hlong, hcut⟩ | ⟨between, hshort, hcut⟩
    · rw [hlong] at hfirst
      obtain rfl := eq_nil_of_intercalate_eq b.fence_ne_empty hcut hfirst
      exact ⟨by simpa using hlong, (List.cons.inj hcut).1.symm⟩
    · rw [hshort] at hfirst
      obtain rfl := eq_nil_of_intercalate_eq (ne_empty_of_closes hline) hcut hfirst.symm
      exact ⟨by simpa using hshort.symm, (List.cons.inj hcut).1⟩
  obtain ⟨rfl, rfl⟩ := hsame
  exact ⟨b.closes_fence.mp hline, closes_body_iff.mp hbody⟩

/-- From a list of lines exactly the diagrams of its parts are read if and only if each block can be
read, that is, if its marker is not repeated too often. -/
theorem map_blocksOutside_eq_iff (parts : List Part) :
    (blocksOutside (parts.flatMap Part.lines)).map ("\n".intercalate ·) =
        parts.filterMap Part.diagram? ↔
      ∀ b, Part.block b ∈ parts → b.Readable := by
  induction parts with
  | nil => simp [blocksOutside]
  | cons part parts ih =>
    rw [List.flatMap_cons]
    cases part with
    | prose line hline =>
      rw [Part.lines, List.singleton_append,
        blocksOutside_prose (openingMarker?_eq_none_iff.mpr hline),
        List.filterMap_cons_none rfl, ih]
      simp
    | block b =>
      have hdiagram : (Part.block b :: parts).filterMap Part.diagram? =
          "\n".intercalate b.body :: parts.filterMap Part.diagram? := rfl
      rw [hdiagram]
      by_cases hb : b.Readable
      · rw [hb.blocksOutside_eq, List.map_cons, List.cons_inj_right, ih]
        simp [hb]
      · refine iff_of_false (fun h => ?_) fun h => hb (h b List.mem_cons_self)
        obtain ⟨first, more, heq, hfirst, -⟩ := List.map_eq_cons_iff.mp h
        exact hb (readable_of_blocksOutside heq hfirst)

/-- **Blocks with fences of three are found as they are.** Whatever prose and blocks a text is made
of, its diagrams are the bodies of all blocks in order exactly if every block has fences of the
length three and no line of a body is three markers of its block between blanks. -/
theorem fencedDiagrams_eq_iff (parts : List Part) (text : String)
    (htext : Text.lines text = parts.flatMap Part.lines) :
    fencedDiagrams text = parts.filterMap Part.diagram? ↔
      ∀ b, Part.block b ∈ parts → b.Readable := by
  rw [fencedDiagrams, htext]
  exact map_blocksOutside_eq_iff parts

/-- A block with fences of three colons, and a line of four in its body. -/
def colons : FencedBlock where
  marker := ':'
  size := 3
  spaces := 1
  body := ["graph TD", "::::"]
  marker_mem := by simp [fenceMarkers]
  three_le := le_rfl

/-- An empty block with fences of three tildes. -/
def tildes : FencedBlock where
  marker := '~'
  size := 3
  spaces := 0
  body := []
  marker_mem := by simp [fenceMarkers]
  three_le := le_rfl

/-- A line that would close the block before it, but opens none. -/
def between : Part := .prose ":::" (openingMarker?_eq_none_iff.mp (by decide +kernel))

/-- Two blocks with prose between them, the first of which has a fence of four in its body, and the
second no body at all. -/
theorem fencedDiagrams_eq_iff_two :
    Text.lines "::: mermaid\ngraph TD\n::::\n:::\n:::\n~~~mermaid\n~~~" =
        [.block colons, between, .block tildes].flatMap Part.lines ∧
      fencedDiagrams "::: mermaid\ngraph TD\n::::\n:::\n:::\n~~~mermaid\n~~~" =
        ["graph TD\n::::", ""] := by
  have hlines : Text.lines "::: mermaid\ngraph TD\n::::\n:::\n:::\n~~~mermaid\n~~~" =
      [.block colons, between, .block tildes].flatMap Part.lines := by decide +kernel
  refine ⟨hlines, (fencedDiagrams_eq_iff _ _ hlines).mpr ?_⟩
  intro b hb
  obtain rfl | rfl : b = colons ∨ b = tildes := by simpa [between] using hb
  · exact ⟨rfl, by decide +kernel⟩
  · exact ⟨rfl, by simp [tildes]⟩

/-- A block with fences of four colons. -/
def longColons : FencedBlock where
  marker := ':'
  size := 4
  spaces := 0
  body := ["graph TD"]
  marker_mem := by simp [fenceMarkers]
  three_le := by decide

/-- A block with fences of four is not found. -/
theorem fencedDiagrams_loses : ¬ ∀ (parts : List Part) (text : String),
    (∀ b, Part.block b ∈ parts → b.Enclosed) → Text.lines text = parts.flatMap Part.lines →
      fencedDiagrams text = parts.filterMap Part.diagram? := by
  intro h
  have hlines : Text.lines "::::mermaid\ngraph TD\n::::\n" =
      [Part.block longColons].flatMap Part.lines := by decide +kernel
  have henclosed : ∀ b, Part.block b ∈ [Part.block longColons] → b.Enclosed := by
    intro b hb l hl n _ heq
    obtain rfl : b = longColons := by simpa using hb
    obtain rfl : l = "graph TD" := by simpa [longColons] using hl
    have hmem : 'g' ∈ List.replicate n longColons.marker := by simp [← heq]
    cases List.eq_of_mem_replicate hmem
  have hnone : fencedDiagrams "::::mermaid\ngraph TD\n::::\n" = [] := by decide +kernel
  have hfound := h _ _ henclosed hlines
  rw [hnone] at hfound
  cases hfound

end Flowchart.Command
