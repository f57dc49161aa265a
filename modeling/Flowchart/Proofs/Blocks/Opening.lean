import Flowchart.Proofs.Blocks.Addresses
import Flowchart.Proofs.Blocks.Laminar
import Flowchart.Proofs.Document.Warnings
import Mathlib.Data.List.Induction

/-!
# Blocks of a text

Every statement that opens a block makes one block of the listing, in the order of these statements.
A block is still open at a later statement unless the blocks were closed as often in between as they
were opened, and once more: `stillOpen` decides this for each block by what follows its opening. The
parent of a block is the innermost block still open where it is opened, and its depth is the number
of all blocks still open there, `parseDocument_blocks`.
-/

namespace Flowchart

/-! ## Opening and closing -/

namespace Statement

/-- The statement opens a block. -/
def opens : Statement → Bool
  | .openBlock _ => true
  | _ => false

/-- The statement closes a block. -/
def closes : Statement → Bool
  | .closeBlock => true
  | _ => false

/-- No statement both opens and closes a block. -/
theorem closes_of_opens {s : Statement} (h : s.opens = true) : s.closes = false := by
  cases s <;> first | rfl | cases h

end Statement

/-- How many blocks statements open. -/
def openings (l : List Statement) : Nat := l.countP Statement.opens

/-- How often statements close a block. -/
def closings (l : List Statement) : Nat := l.countP Statement.closes

/-- A block that is open before some statements is open after them: up to none of them were blocks
closed more often than opened. -/
def LeavesOpen (l : List Statement) : Prop := ∀ l', l' <+: l → closings l' ≤ openings l'

/-- How many of the blocks that are open before some statements these close. -/
def closedBy : List Statement → Nat
  | [] => 0
  | s :: rest =>
    if s.opens then closedBy rest - 1
    else if s.closes then closedBy rest + 1
    else closedBy rest

section Counting

variable {l : List Statement} {s : Statement}

theorem openings_cons : openings (s :: l) = openings l + if s.opens then 1 else 0 :=
  List.countP_cons

theorem closings_cons : closings (s :: l) = closings l + if s.closes then 1 else 0 :=
  List.countP_cons

theorem openings_concat : openings (l ++ [s]) = openings l + if s.opens then 1 else 0 := by
  rw [openings, List.countP_append, List.countP_singleton]
  rfl

theorem closings_concat : closings (l ++ [s]) = closings l + if s.closes then 1 else 0 := by
  rw [closings, List.countP_append, List.countP_singleton]
  rfl

/-- What statements close of the blocks that were open before is the largest excess of closings over
openings among their beginnings, and these are the empty one and those that start with the first
statement. -/
theorem closedBy_le_iff {d : Nat} :
    closedBy l ≤ d ↔ ∀ l', l' <+: l → closings l' ≤ openings l' + d := by
  induction l generalizing d with
  | nil =>
    refine ⟨fun _ l' hl' => ?_, fun _ => Nat.zero_le d⟩
    obtain rfl := List.prefix_nil.mp hl'
    exact Nat.zero_le _
  | cons s l ih =>
    have hcons : (∀ l', l' <+: s :: l → closings l' ≤ openings l' + d) ↔
        ∀ l', l' <+: l → closings (s :: l') ≤ openings (s :: l') + d := by
      refine ⟨fun h l' hl' => h _ (List.cons_prefix_cons.mpr ⟨rfl, hl'⟩), fun h l' hl' => ?_⟩
      rcases List.prefix_cons_iff.mp hl' with rfl | ⟨l'', rfl, hl''⟩
      · exact Nat.zero_le _
      · exact h l'' hl''
    simp only [hcons, closings_cons, openings_cons, closedBy]
    cases hopens : s.opens with
    | true =>
      simp only [Statement.closes_of_opens hopens, if_true, Bool.false_eq_true, if_false]
      rw [Nat.sub_le_iff_le_add, ih]
      exact forall₂_congr fun l' _ => by omega
    | false =>
      simp only [Bool.false_eq_true, if_false]
      cases s.closes with
      | false =>
        simp only [Bool.false_eq_true, if_false]
        exact ih
      | true =>
        simp only [if_true]
        cases d with
        | zero =>
          refine ⟨fun h => absurd h (Nat.not_succ_le_zero _), fun h => ?_⟩
          exact absurd (h [] List.nil_prefix) (Nat.not_succ_le_zero _)
        | succ d =>
          rw [Nat.succ_le_succ_iff, ih]
          exact forall₂_congr fun l' _ => by omega

/-- A block stays open if no block that was open before is closed. -/
theorem leavesOpen_iff : LeavesOpen l ↔ closedBy l = 0 := by
  rw [← Nat.le_zero, closedBy_le_iff]
  rfl

instance : DecidablePred LeavesOpen := fun _ => decidable_of_iff' _ leavesOpen_iff

/-- With one more statement, blocks stay open if they did before and the closings do not outnumber
the openings now. -/
theorem leavesOpen_concat : LeavesOpen (l ++ [s]) ↔
    LeavesOpen l ∧ closings (l ++ [s]) ≤ openings (l ++ [s]) := by
  constructor
  · exact fun h => ⟨fun l' hl' => h l' (hl'.trans (List.prefix_append l [s])), h _ List.prefix_rfl⟩
  · rintro ⟨h, hall⟩ l' hl'
    rcases List.prefix_concat_iff.mp hl' with rfl | hl'
    · exact hall
    · exact h l' hl'

/-- What closes no block keeps open what is open. -/
theorem leavesOpen_concat_of_not_closes (hs : s.closes = false) :
    LeavesOpen (l ++ [s]) ↔ LeavesOpen l := by
  refine leavesOpen_concat.trans ⟨And.left, fun h => ⟨h, ?_⟩⟩
  have hl := h l List.prefix_rfl
  rw [closings_concat, openings_concat, hs, if_neg Bool.false_ne_true]
  omega

end Counting

/-! ## Blocks that are still open -/

/-- The blocks that statements open and leave open, outermost first; the first block they open has
the number `n`. -/
def stillOpen (n : Nat) : List Statement → List Nat
  | [] => []
  | s :: rest =>
    if s.opens then
      if LeavesOpen rest then n :: stillOpen (n + 1) rest else stillOpen (n + 1) rest
    else stillOpen n rest

section StillOpen

variable {l : List Statement} {s : Statement}

/-- Every block that was opened is still open or was closed, and what was closed beyond these had
been open before. -/
theorem length_stillOpen (n : Nat) (l : List Statement) :
    (stillOpen n l).length + closings l = openings l + closedBy l := by
  induction l generalizing n with
  | nil => rfl
  | cons s l ih =>
    rw [stillOpen, closings_cons, openings_cons, closedBy]
    cases hopens : s.opens with
    | true =>
      have hrest := ih (n + 1)
      simp only [Statement.closes_of_opens hopens, leavesOpen_iff, if_true, Bool.false_eq_true,
        if_false]
      split
      · rw [List.length_cons]
        omega
      · omega
    | false =>
      have hrest := ih n
      simp only [Bool.false_eq_true, if_false]
      cases s.closes <;> simp <;> omega

/-- A block that is opened is the innermost open one. -/
theorem stillOpen_concat_of_opens (n : Nat) (hs : s.opens = true) :
    stillOpen n (l ++ [s]) = stillOpen n l ++ [n + openings l] := by
  induction l generalizing n with
  | nil =>
    have hnil : LeavesOpen [] := leavesOpen_iff.mpr rfl
    simp [stillOpen, openings, hs, hnil]
  | cons t l ih =>
    have hleaves := leavesOpen_concat_of_not_closes (l := l) (Statement.closes_of_opens hs)
    rw [List.cons_append, stillOpen, stillOpen, openings_cons, ih, ih]
    simp only [hleaves]
    split
    · rw [Nat.add_right_comm, Nat.add_assoc]
      split <;> rfl
    · rfl

/-- Closing a block closes the innermost open one. -/
theorem stillOpen_concat_of_closes (n : Nat) (hs : s.closes = true) (hopens : s.opens = false) :
    stillOpen n (l ++ [s]) = (stillOpen n l).dropLast := by
  induction l generalizing n with
  | nil =>
    simp [stillOpen, hopens]
  | cons t l ih =>
    rw [List.cons_append, stillOpen, stillOpen, ih, ih]
    split
    · -- the block opened first is closed if no block inside it is open
      have hlength := length_stillOpen (n + 1) l
      have hleaves : LeavesOpen (l ++ [s]) ↔ LeavesOpen l ∧ stillOpen (n + 1) l ≠ [] := by
        rw [leavesOpen_concat, closings_concat, openings_concat, if_pos hs, hopens,
          if_neg Bool.false_ne_true, ← List.length_pos_iff, leavesOpen_iff]
        refine and_congr_right fun h => ?_
        omega
      rw [if_congr hleaves rfl rfl]
      by_cases hl : LeavesOpen l
      · by_cases hnil : stillOpen (n + 1) l = []
        · rw [if_neg (fun h => h.2 hnil), if_pos hl, hnil]
          rfl
        · rw [if_pos ⟨hl, hnil⟩, if_pos hl, List.dropLast_cons_of_ne_nil hnil]
      · rw [if_neg (fun h => hl h.1), if_neg hl]
    · rfl

/-- A statement that neither opens nor closes a block keeps open what is open. -/
theorem stillOpen_concat_of_other (n : Nat) (hs : s.closes = false) (hopens : s.opens = false) :
    stillOpen n (l ++ [s]) = stillOpen n l := by
  induction l generalizing n with
  | nil =>
    simp [stillOpen, hopens]
  | cons t l ih =>
    rw [List.cons_append, stillOpen, stillOpen, ih, ih]
    simp only [leavesOpen_concat_of_not_closes hs]

end StillOpen

/-! ## Drafts and statements -/

/-- The parent of a draft is the first of its ancestors. -/
theorem Nested.parentOf_eq_head? {drafts : List Draft} (hn : Nested drafts) (i : Nat) :
    parentOf drafts i = (ancestors drafts i).head? := by
  cases hp : parentOf drafts i with
  | none => rw [Nested.ancestors_of_none hp, List.head?_nil]
  | some p => rw [hn.ancestors_of_some hp, List.head?_cons]

/-- What a draft has from the statement that opens it. -/
def Draft.heading (d : Draft) : String × Option String × Option Nat := (d.id, d.title, d.parent)

/-- The draft at a position is the block of a header, with the given drafts around it. -/
def Heads (drafts : List Draft) (k : Nat) (header : BlockHeader) (around : List Nat) : Prop :=
  ∃ d, drafts[k]? = some d ∧ d.title = header.title ∧ (∀ id, header.id = some id → d.id = id) ∧
    ancestors drafts k = around

section Headings

variable {drafts drafts' : List Draft} {k : Nat}

theorem parentOf_congr_heading
    (h : drafts'[k]?.map Draft.heading = drafts[k]?.map Draft.heading) :
    parentOf drafts' k = parentOf drafts k := by
  have hparent : ∀ l : List Draft, parentOf l k = (l[k]?.map Draft.heading).bind (·.2.2) := by
    intro l
    rw [parentOf, Option.bind_map]
    rfl
  rw [hparent, hparent, h]

/-- What a draft says about its block stands in its heading. -/
theorem Heads.congr {header : BlockHeader} {around : List Nat} (hd : Heads drafts k header around)
    (hheading : drafts'[k]?.map Draft.heading = drafts[k]?.map Draft.heading)
    (hancestors : ancestors drafts' k = ancestors drafts k) : Heads drafts' k header around := by
  obtain ⟨d, hget, htitle, hid, haround⟩ := hd
  rw [hget, Option.map_some] at hheading
  obtain ⟨d', hget', hd'⟩ := Option.map_eq_some_iff.mp hheading
  obtain ⟨hid', htitle', -⟩ : d'.id = d.id ∧ d'.title = d.title ∧ d'.parent = d.parent := by
    simpa [Draft.heading] using hd'
  exact ⟨d', hget', htitle'.trans htitle, fun id h => hid'.trans (hid id h),
    hancestors.trans haround⟩

end Headings

namespace Builder

variable {b : Builder} {line : Nat} {s : Statement}

theorem headings_mention (b : Builder) (r : NodeRef) :
    (b.mention r).drafts.map Draft.heading = b.drafts.map Draft.heading ∧
      (b.mention r).openBlocks = b.openBlocks := by
  have hmember : ∀ d, (addMember r.id d).heading = d.heading := fun d => by
    rw [addMember]
    split <;> rfl
  simp only [mention, register]
  split
  · exact ⟨rfl, rfl⟩
  · exact ⟨map_addMember hmember _ _, rfl⟩

/-- A chain enters nodes into drafts, which changes neither their headings nor which of them are
open. -/
theorem headings_addChain (b : Builder) (c : Chain) :
    (b.addChain c).drafts.map Draft.heading = b.drafts.map Draft.heading ∧
      (b.addChain c).openBlocks = b.openBlocks := by
  refine List.foldlRecOn (motive := fun b' : Builder =>
    b'.drafts.map Draft.heading = b.drafts.map Draft.heading ∧ b'.openBlocks = b.openBlocks)
    c.references mention ⟨rfl, rfl⟩ fun b' hb' r _ => ?_
  obtain ⟨hdrafts, hopen⟩ := b'.headings_mention r
  exact ⟨hdrafts.trans hb'.1, hopen.trans hb'.2⟩

/-- A statement that opens no block leaves the headings of the drafts as they are, and only closing
a block changes which ones are open. -/
theorem headings_run (b : Builder) (line : Nat) (hs : s.opens = false) :
    (b.run line s).drafts.map Draft.heading = b.drafts.map Draft.heading ∧
      (b.run line s).openBlocks = if s.closes then b.openBlocks.tail else b.openBlocks := by
  cases s with
  | closeBlock =>
    rw [run, closeBlock]
    split <;> simp [*, Statement.closes]
  | openBlock header => cases hs
  | direction d =>
    rw [run, setDirection]
    split
    · refine ⟨List.ext_getElem? fun j => ?_, rfl⟩
      rw [List.getElem?_map, List.getElem?_map, List.getElem?_modify]
      split <;> cases b.drafts[j]? <;> rfl
    · exact ⟨rfl, rfl⟩
  | defineClasses style => cases style <;> exact ⟨rfl, rfl⟩
  | assignClasses pairs => exact ⟨rfl, rfl⟩
  | styleNodes style => cases style <;> exact ⟨rfl, rfl⟩
  | styleLinks style =>
    cases style with
    | none => exact ⟨rfl, rfl⟩
    | some style => obtain ⟨selection | indices, style⟩ := style <;> exact ⟨rfl, rfl⟩
  | ignored => exact ⟨rfl, rfl⟩
  | chain c => exact b.headings_addChain c
  | rejected reason => exact ⟨rfl, rfl⟩

/-- The draft that a statement opens: it comes last, and the others keep their headings. -/
theorem openBlock_spec (b : Builder) (header : BlockHeader) : ∃ id : String,
    (b.openBlock header).drafts.map Draft.heading =
      b.drafts.map Draft.heading ++ [(id, header.title, b.openBlocks.head?)] ∧
    (b.openBlock header).openBlocks = b.drafts.length :: b.openBlocks ∧
    ∀ id', header.id = some id' → id = id' := by
  rw [openBlock]
  cases header.id with
  | none => exact ⟨_, map_pushDraft (fun _ _ => rfl) _ _ _, rfl, fun _ h => by cases h⟩
  | some id => exact ⟨id, map_pushDraft (fun _ _ => rfl) _ _ _, rfl, fun _ h => Option.some.inj h⟩

/-- The drafts of a builder are the blocks that some statements open, and the open ones are those
that they leave open. -/
structure Follows (b : Builder) (done : List Statement) : Prop where
  length_eq : b.drafts.length = openings done
  opened : b.openBlocks = (stillOpen 0 done).reverse
  entry : ∀ before header after, done = before ++ .openBlock header :: after →
    Heads b.drafts (openings before) header (stillOpen 0 before).reverse

namespace Follows

variable {done : List Statement}

/-- A statement that opens a block appends a draft inside the innermost block that is still open. -/
theorem openBlock (hf : b.Follows done) (hb : b.Orderly) (header : BlockHeader) :
    (b.openBlock header).Follows (done ++ [.openBlock header]) := by
  obtain ⟨id, hheadings, hopen, hid⟩ := b.openBlock_spec header
  have hb' := hb.openBlock header
  have hlength : (b.openBlock header).drafts.length = b.drafts.length + 1 := by
    simpa using congrArg List.length hheadings
  constructor
  case length_eq =>
    rw [hlength, hf.length_eq, openings_concat]
    rfl
  case opened =>
    rw [hopen, stillOpen_concat_of_opens 0 rfl, List.reverse_append, hf.opened, hf.length_eq,
      Nat.zero_add]
    rfl
  case entry =>
    intro before header' after hsplit
    rcases List.eq_nil_or_concat after with rfl | ⟨after, s, rfl⟩
    · -- the block opened last
      obtain ⟨rfl, hheader⟩ := List.append_inj' hsplit rfl
      obtain rfl : header = header' := by simpa using hheader
      have hlast : (b.openBlock header).drafts[b.drafts.length]?.map Draft.heading =
          some (id, header.title, b.openBlocks.head?) := by
        rw [← List.getElem?_map, hheadings, ← List.length_map, List.getElem?_concat_length]
      obtain ⟨d, hd, hheading⟩ := Option.map_eq_some_iff.mp hlast
      obtain ⟨hid', htitle, -⟩ : d.id = id ∧ d.title = header.title ∧
          d.parent = b.openBlocks.head? := by
        simpa [Draft.heading] using hheading
      rw [← hf.length_eq, ← hf.opened]
      exact ⟨d, hd, htitle, fun id' h => hid'.trans (hid id' h),
        (hb'.opened.chain hopen).2.symm⟩
    · have hsplit' : done ++ [.openBlock header] =
          (before ++ .openBlock header' :: after) ++ [s] := by simpa using hsplit
      obtain ⟨hdone, -⟩ := List.append_inj' hsplit' rfl
      have hentry := hf.entry before header' after hdone
      have hlt : openings before < b.drafts.length := by
        obtain ⟨d, hd, -⟩ := hentry
        exact (List.getElem?_eq_some_iff.mp hd).1
      have hkept : ∀ k < b.drafts.length, (b.openBlock header).drafts[k]?.map Draft.heading =
          b.drafts[k]?.map Draft.heading := fun k hk => by
        rw [← List.getElem?_map, hheadings, List.getElem?_append_left (by simpa using hk),
          List.getElem?_map]
      refine hentry.congr (hkept _ hlt) (hb.nested.ancestors_eq hb'.nested fun k hk => ?_)
      exact parentOf_congr_heading (hkept k (hk.trans_lt hlt))

/-- A statement that opens no block leaves the drafts as they follow from the statements before
it. -/
theorem other (hf : b.Follows done) (hs : s.opens = false) :
    (b.run line s).Follows (done ++ [s]) := by
  obtain ⟨hheadings, hopen⟩ := headings_run b line hs
  have hparents : (b.run line s).drafts.map Draft.parent = b.drafts.map Draft.parent := by
    simpa [Function.comp_def, Draft.heading] using congrArg (List.map (·.2.2)) hheadings
  constructor
  case length_eq =>
    have hlength : (b.run line s).drafts.length = b.drafts.length := by
      simpa using congrArg List.length hheadings
    rw [hlength, hf.length_eq, openings_concat, hs]
    rfl
  case opened =>
    rw [hopen, hf.opened]
    cases hcloses : s.closes with
    | true => rw [stillOpen_concat_of_closes 0 hcloses hs, if_pos rfl, List.tail_reverse]
    | false => rw [stillOpen_concat_of_other 0 hcloses hs, if_neg Bool.false_ne_true]
  case entry =>
    intro before header after hsplit
    rcases List.eq_nil_or_concat after with rfl | ⟨after, s', rfl⟩
    · obtain ⟨-, hheader⟩ := List.append_inj' hsplit rfl
      obtain rfl : s = .openBlock header := by simpa using hheader
      cases hs
    · have hsplit' : done ++ [s] = (before ++ .openBlock header :: after) ++ [s'] := by
        simpa using hsplit
      obtain ⟨hdone, -⟩ := List.append_inj' hsplit' rfl
      refine (hf.entry before header after hdone).congr ?_ (congrFun (ancestors_congr hparents) _)
      rw [← List.getElem?_map, hheadings, List.getElem?_map]

/-- Each statement keeps the drafts in step with the blocks that the statements so far have
opened. -/
theorem run (hf : b.Follows done) (hb : b.Orderly) (line : Nat) (s : Statement) :
    (b.run line s).Follows (done ++ [s]) := by
  cases s with
  | openBlock header => exact hf.openBlock hb header
  | _ => exact hf.other rfl

/-- A block that a statement opens is listed inside the innermost block still open before it. -/
theorem entry_finish (hf : b.Follows done) (hb : b.Orderly) {before : List Statement}
    {header : BlockHeader} {after : List Statement}
    (hdone : done = before ++ .openBlock header :: after) :
    ∃ f, b.finish.flatBlocks[openings before]? = some f ∧ f.block.title = header.title ∧
      (∀ id, header.id = some id → f.block.id = id) ∧
      f.parent = (stillOpen 0 before).getLast? ∧ f.depth = (stillOpen 0 before).length := by
  have hlisting := hb.listingOf_finish
  have hancestorsOf := ancestors_congr (map_parent_keptDrafts b)
  obtain ⟨d, hd, htitle, hid, hancestors⟩ := hf.entry before header after hdone
  obtain ⟨f, hentry, hdraft⟩ := hlisting.exists_entry
    (getElem?_keptDrafts.trans (congrArg (Option.map _) hd))
  refine ⟨f, hentry, ?_, fun id h => ?_, ?_, ?_⟩
  · exact (congrArg Draft.title hdraft).trans htitle
  · exact (congrArg Draft.id hdraft).trans (hid id h)
  · calc f.parent = parentOf b.keptDrafts (openings before) := by
          rw [← hlisting.bind_parent, hentry, Option.bind_some]
      _ = (ancestors b.drafts (openings before)).head? := by
          rw [hlisting.nested.parentOf_eq_head?, hancestorsOf]
      _ = (stillOpen 0 before).getLast? := by rw [hancestors, List.head?_reverse]
  · rw [(hlisting.entries hentry).2, hancestorsOf, hancestors, List.length_reverse]

end Follows

/-- **A run of statements** makes one draft for each block they open, inside those still open. -/
theorem follows_runAll {start : Builder} (hstart : start.Orderly) (hdrafts : start.drafts = [])
    (hopen : start.openBlocks = []) (l : List (Nat × Statement)) :
    (start.runAll l).Orderly ∧ (start.runAll l).Follows (l.map Prod.snd) := by
  induction l using List.reverseRecOn with
  | nil =>
    refine ⟨hstart, ⟨congrArg List.length hdrafts, hopen, fun before header after h => ?_⟩⟩
    simp at h
  | append_singleton l s ih =>
    rw [runAll_append, List.map_append]
    exact ⟨ih.1.run s.1 s.2, ih.2.run ih.1 s.1 s.2⟩

/-- Closing as many blocks as are open closes all of them and changes nothing else, so there is no
warning either. -/
theorem runAll_closeBlock (b : Builder) (line : Nat) :
    b.runAll (List.replicate b.openBlocks.length (line, .closeBlock)) =
      { b with openBlocks := [] } := by
  have hrun : ∀ (opened : List Nat), Builder.runAll { b with openBlocks := opened }
      (List.replicate opened.length (line, .closeBlock)) = { b with openBlocks := [] } := by
    intro opened
    induction opened with
    | nil => rfl
    | cons o opened ih =>
      rw [List.length_cons, List.replicate_succ, runAll_cons]
      exact ih
  exact hrun b.openBlocks

end Builder

/-! ## Documents -/

/-- The blocks of a document are those of its statements, which are carried out from `start` on. -/
structure Document.FollowsBlocks (doc : Document) (start : Builder)
    (statements : List (Nat × Statement)) : Prop where
  diagram_eq : doc.diagram = (start.runAll statements).finish
  /-- every statement that opens a block makes one entry -/
  length_eq : doc.diagram.flatBlocks.length = openings (statements.map Prod.snd)
  /-- the entry is the next one, it lies inside the innermost block that is still open, and has the
  depth of the number of open blocks -/
  entry : ∀ before line header after, statements = before ++ (line, .openBlock header) :: after →
    ∃ f, doc.diagram.flatBlocks[openings (before.map Prod.snd)]? = some f ∧
      f.block.title = header.title ∧ (∀ id, header.id = some id → f.block.id = id) ∧
      f.parent = (stillOpen 0 (before.map Prod.snd)).getLast? ∧
      f.depth = (stillOpen 0 (before.map Prod.snd)).length
  /-- closing a block when none is open adds a warning and changes nothing else -/
  unmatched : ∀ before line after, statements = before ++ (line, .closeBlock) :: after →
    stillOpen 0 (before.map Prod.snd) = [] →
    (start.runAll (before ++ after)).finish = doc.diagram ∧
    ∃ earlier later, doc.warnings = earlier ++ ⟨line, .endWithoutBlock⟩ :: later ∧
      (start.runAll (before ++ after)).warnings = earlier ++ later
  /-- it makes no difference if the blocks still open at the end are closed there -/
  closed_at_end : ∀ line, ∃ closed, closed = start.runAll (statements ++
      List.replicate (stillOpen 0 (statements.map Prod.snd)).length (line, .closeBlock)) ∧
    closed.openBlocks = [] ∧ closed.finish = doc.diagram ∧ closed.warnings = doc.warnings

namespace Builder

variable {start : Builder} {l : List (Nat × Statement)}

/-- Closing a block when none is open leaves a warning only. -/
theorem unmatched_runAll (before : List (Nat × Statement)) (line : Nat)
    (after : List (Nat × Statement)) (hopen : (start.runAll before).openBlocks = []) :
    (start.runAll (before ++ after)).finish =
        (start.runAll (before ++ (line, .closeBlock) :: after)).finish ∧
      ∃ earlier later, (start.runAll (before ++ (line, .closeBlock) :: after)).warnings =
          earlier ++ ⟨line, .endWithoutBlock⟩ :: later ∧
        (start.runAll (before ++ after)).warnings = earlier ++ later := by
  have hobjection : (start.runAll before).objection? .closeBlock = some .endWithoutBlock := by
    rw [objection?, hopen]
    rfl
  have hquiet := quiet_run_of_objection line hobjection
  refine ⟨?_, (start.runAll before).warnings, (start.runAll before).notes after, ?_, ?_⟩
  · rw [runAll_append, runAll_append, runAll_cons]
    exact finish_congr (quiet_runAll hquiet.symm rfl)
  · rw [runAll_append, runAll_cons, warnings_runAll, warnings_run, notes_congr hquiet, note,
      hobjection, List.append_assoc]
    rfl
  · rw [runAll_append, warnings_runAll]

/-- **The blocks of a run** that starts without blocks follow its statements. -/
theorem followsBlocks_runAll (hstart : start.Orderly) (hdrafts : start.drafts = [])
    (hopen : start.openBlocks = []) {doc : Document}
    (hdiagram : doc.diagram = (start.runAll l).finish)
    (hwarnings : doc.warnings = (start.runAll l).warnings) : doc.FollowsBlocks start l := by
  have hfollows := follows_runAll hstart hdrafts hopen
  obtain ⟨hb, hf⟩ := hfollows l
  have hlisting := hb.listingOf_finish
  constructor
  case diagram_eq => exact hdiagram
  case length_eq =>
    have hkept : (start.runAll l).keptDrafts.length = (start.runAll l).drafts.length := by
      simpa using congrArg List.length (map_parent_keptDrafts (start.runAll l))
    rw [hdiagram, hlisting.length_eq, hkept, hf.length_eq]
  case entry =>
    rintro before line header after rfl
    have hsplit : (before ++ (line, .openBlock header) :: after).map Prod.snd =
        before.map Prod.snd ++ .openBlock header :: after.map Prod.snd := by simp
    rw [hdiagram]
    exact hf.entry_finish hb hsplit
  case unmatched =>
    rintro before line after rfl hnone
    have hclosed : (start.runAll before).openBlocks = [] := by
      rw [(hfollows before).2.opened, hnone, List.reverse_nil]
    rw [hdiagram, hwarnings]
    exact unmatched_runAll before line after hclosed
  case closed_at_end =>
    intro line
    refine ⟨_, rfl, ?_⟩
    rw [← List.length_reverse, ← hf.opened, runAll_append, runAll_closeBlock, hdiagram, hwarnings]
    exact ⟨rfl, rfl, rfl⟩

end Builder

/-- **Blocks follow the text, and the listing follows the blocks.** The blocks of a document that
was read are those that the statements of its text open, in their order; and the listing of any
diagram, read or not, shows the blocks in the order of their addresses, each with the number of the
blocks around it and the position of the innermost one, as a walk with a stack does. -/
theorem parseDocument_blocks :
    (∀ (text : String) (doc : Document), parseDocument text = .ok doc →
      ∃ d, doc.FollowsBlocks { diagram := { direction := d } } (statementsOf text)) ∧
    ∀ (α : Type) (g : Diagram α), Block.PreOrder g.blocks g.flatBlocks ∧
      g.flatBlocks = Block.drain 0 (g.blocks.map fun b => (b, 0, none)) := by
  refine ⟨fun text doc h => ?_, fun α g =>
    ⟨Block.preOrder_listAllFrom g.blocks, g.flatBlocks_eq_drain⟩⟩
  obtain ⟨b, hbuild, rfl⟩ := exists_buildText_eq h
  obtain ⟨d, rfl⟩ := buildText_runAll hbuild
  exact ⟨d, Builder.followsBlocks_runAll (.of_empty rfl rfl rfl rfl) rfl rfl rfl rfl⟩

/-- A block in a block, one after both are closed, a closing too many, and a block that stays
open. -/
def nestedBlocks : String :=
  "graph TD\nsubgraph a\nsubgraph b\nend\nend\nend\nsubgraph c\nsubgraph d\nx --> y"

/-- A block inside another, one closing line too many, and then two blocks that are left open, one
inside the other: the listing has all four in the order they are opened, and one warning for the
line too many. -/
theorem parseDocument_blocks_nested : ∃ doc, parseDocument nestedBlocks = .ok doc ∧
    (∃ d, doc.FollowsBlocks { diagram := { direction := d } } (statementsOf nestedBlocks)) ∧
    (doc.diagram.flatBlocks.map fun f => (f.block.id, f.depth, f.parent)) =
      [("a", 0, none), ("b", 1, some 0), ("c", 0, none), ("d", 1, some 2)] ∧
    doc.warnings = [⟨6, .endWithoutBlock⟩] := by
  have hread : (parseDocument nestedBlocks).toOption.map (fun doc =>
      (doc.diagram.flatBlocks.map (fun f => (f.block.id, f.depth, f.parent)), doc.warnings)) =
      some ([("a", 0, none), ("b", 1, some 0), ("c", 0, none), ("d", 1, some 2)],
        [⟨6, .endWithoutBlock⟩]) := by decide +kernel
  obtain ⟨doc, h, hdoc⟩ := exists_ok_of_map hread
  obtain ⟨hblocks, hwarnings⟩ := Prod.mk.inj hdoc
  exact ⟨doc, h, parseDocument_blocks.1 nestedBlocks doc h, hblocks, hwarnings⟩

end Flowchart
